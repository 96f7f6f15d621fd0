import WordAtlas.Catalog.Data
import WordAtlas.Table.Batch
import WordAtlas.Stream.Instruction
import WordAtlas.Stream.Serial
import WordAtlas.Json.Reader
import WordAtlas.Json.Shown
import WordAtlas.Main
import WordAtlas.Proofs.Boundaries
import WordAtlas.Proofs.FaithfulListing
import WordAtlas.Proofs.DenseArrays
import WordAtlas.Proofs.WholeRanges
import WordAtlas.Proofs.MemoryImage
import WordAtlas.Proofs.EqualRuns
import WordAtlas.Proofs.AuthoringOrder
import WordAtlas.Proofs.LosslessDecoding
import WordAtlas.Proofs.Positions
import WordAtlas.Proofs.Examination
import WordAtlas.Proofs.UnknownWords
import WordAtlas.Proofs.RunLength
import WordAtlas.Proofs.Rows
import WordAtlas.Proofs.BatchDecoding
import WordAtlas.Proofs.ReadsInTurn
import WordAtlas.Proofs.EndsOfData
import WordAtlas.Proofs.LookedUpWords
import WordAtlas.Proofs.LookingAhead
import WordAtlas.Proofs.CourseOfBuild
import WordAtlas.Proofs.GivenSlots
import WordAtlas.Proofs.OperandValues
import WordAtlas.Proofs.NamedOverlays
import WordAtlas.Proofs.WordNumerals
import WordAtlas.Proofs.JsonValues
import WordAtlas.Proofs.JsonGrammar
import WordAtlas.Proofs.JsonTexts
import WordAtlas.Proofs.CommandRuns
import WordAtlas.Proofs.NestedRanges
import WordAtlas.Proofs.FailedReadings
import WordAtlas.Proofs.IndependentSwitches
import WordAtlas.Proofs.PackedIntegers
