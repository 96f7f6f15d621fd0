import WordAtlas.Definition
import WordAtlas.Overlay

/-!
# Catalogs

A catalog is a list of definitions.  A decode table is made from a *catch-all* catalog, which claims
every word, a *base* catalog, which claims the words of real instructions, and overlay catalogs,
which are given under sets of overlays.  Only the catalogs given under single overlays are ever
applied; those under an empty or a combined set are checked like all others and then left alone.

`Catalogs.applied` is the sequence of definitions that a choice of overlays puts into force.  Where
several of them claim a word, the last one owns it.
-/

namespace WordAtlas

/-- A list of definitions. -/
abbrev Catalog := List Definition

/-- The catalogs from which a table is made. -/
structure Catalogs where
  catchAll : Catalog
  base : Catalog
  overlays : List (OverlaySet × Catalog)
deriving DecidableEq

namespace Catalogs

/-- The catalog of an overlay, if one is given under it alone. -/
def overlay? (catalogs : Catalogs) (overlay : Overlay) : Option Catalog :=
  catalogs.overlays.lookup (OverlaySet.single overlay)

/-- The catalogs of the chosen overlays, in the order in which they are applied, whatever the
order in which they are given. -/
def enabled (catalogs : Catalogs) (options : OverlaySet) : List (Overlay × Catalog) :=
  options.toList.filterMap fun overlay => (catalogs.overlay? overlay).map (overlay, ·)

/-- The definitions that a choice of overlays puts into force, in order. -/
def applied (catalogs : Catalogs) (options : OverlaySet) : List Definition :=
  catalogs.catchAll ++ catalogs.base ++ (catalogs.enabled options).flatMap (·.2)

end Catalogs

end WordAtlas
