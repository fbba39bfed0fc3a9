import ContainerAliases.Disk.Basic

namespace ContainerAliases.Project

open Disk

/-- The marks of a root: `composer.json` together with `artisan`, or with both `app` and
`vendor`. -/
def isRoot (d : Disk) (p : Path) : Bool :=
  d.reaches (p.child "composer.json").steps &&
    (d.reaches (p.child "artisan").steps ||
      d.isDirectory (p.child "app").steps && d.isDirectory (p.child "vendor").steps)

/-- The directory from which the search climbs. -/
def searchStart? (d : Disk) (p : Path) : Option Path :=
  if d.isFile p.steps then p.parent else some p

/-- The nearest root above a path, or the path itself. -/
def rootOf? (d : Disk) (p : Path) : Option Path :=
  (searchStart? d p).bind fun q => q.ancestors.find? (isRoot d)

end ContainerAliases.Project
