import CrosIde.CommonUtil.PathWalks

/-!
# `Packages.fromFilepath`

`Packages.fromFilepath` (`packages/types.ts:87-121`) finds the package that compiles a file: the
file's real path, the nearest enclosing chroot (`findChroot`), the path relative to the
chroot's source directory, and then a walk up that relative path with `path.dirname`, returning
the first directory that is a key of `mapping`, until `.`.

The walk ends for every relative path (`lookupUp_isSome`). When the real path lies under the
source directory of its nearest chroot, `fromFilepath` returns the entry of the longest ancestor
of the relative path, the path itself included and `.` excluded, that `mapping` has
(`fromFilepath_nearest`), unless the relative path starts with `..`: the test
`relPath.startsWith('..')` that rejects paths outside the source directory also rejects a
directory of the source whose name starts with `..` (`fromFilepath_dotdot_directory`).

`ensureGenerated` is left out: `mapping` is the map it has filled. `fs.promises.realpath` is the
parameter `realpath`, `none` where it throws.
-/

namespace CrosIde.Packages

open Path CommonUtil

variable {ι : Type}

/-- The real path of `filepath` (`packages/types.ts:90-101`): what `fs.promises.realpath`
    returns, or `filepath` itself when it throws on an absolute path. -/
def realPathOf (realpath : String → Option String) (filepath : String) : Option String :=
  match realpath filepath with
  | some p => some p
  | none => if isAbsolute filepath then some filepath else none

/-- The loop `while (relPath !== '.')` (`packages/types.ts:113-119`): the entry of the first
    directory of the `dirname` chain of `relPath` that `mapping` has, `null` as `none` once the
    chain reaches `.`. `fuel` bounds the iterations; running out of it is the outer `none`. -/
def lookupUp (mapping : List (String × ι)) : Nat → String → Option (Option ι)
  | 0, _ => none
  | fuel + 1, relPath =>
    if relPath = "." then some none
    else match mapping.lookup relPath with
      | some info => some (some info)
      | none => lookupUp mapping fuel (dirname relPath)

/-- `Packages.fromFilepath(filepath)` (`packages/types.ts:87-121`) from the working directory
    `cwd`, once `mapping` is generated. -/
def fromFilepath (cwd : List String) (realpath : String → Option String)
    (existsSync : String → Bool) (mapping : List (String × ι)) (filepath : String) : Option ι := do
  let realpath ← realPathOf realpath filepath
  let chroot ← findChroot existsSync realpath
  let relPath := relative cwd (sourceDir chroot) realpath
  if ['.', '.'].isPrefixOf relPath.toList || isAbsolute relPath then none
  else (lookupUp mapping (relPath.length + 2) relPath).join

/-- The walk ends, at an entry or at `.`, within `height relPath + 1` iterations from a relative
    path. -/
theorem lookupUp_isSome (mapping : List (String × ι)) :
    ∀ (fuel : Nat) (relPath : String), isAbsolute relPath = false → height relPath < fuel →
      (lookupUp mapping fuel relPath).isSome
  | 0, _, _, h => absurd h (Nat.not_lt_zero _)
  | fuel + 1, relPath, habs, h => by
    unfold lookupUp
    split
    · rfl
    · next hdot =>
      split
      · rfl
      · have hroot : relPath ≠ "/" := by rintro rfl; exact absurd habs (by decide)
        have hlt := height_dirname_lt (dirname_ne_self hdot hroot)
        exact lookupUp_isSome mapping fuel _ ((isAbsolute_dirname relPath).trans habs) (by omega)

/-- The fuel `fromFilepath` gives the walk is enough: from every relative path the walk ends, at
    an entry or at `.`, before the fuel runs out, so a `none` of `fromFilepath` is never for want
    of fuel. -/
theorem lookupUp_terminates (mapping : List (String × ι)) {relPath : String}
    (habs : isAbsolute relPath = false) : (lookupUp mapping (relPath.length + 2) relPath).isSome :=
  lookupUp_isSome mapping _ relPath habs (by have := height_le relPath; omega)

/-- From `platform/foo/bar.cc`, with `platform` in the mapping. -/
theorem lookupUp_terminates_platform :
    isAbsolute "platform/foo/bar.cc" = false ∧
      (lookupUp [("platform", 1)] ("platform/foo/bar.cc".length + 2)
        "platform/foo/bar.cc").isSome :=
  have habs : isAbsolute "platform/foo/bar.cc" = false := by decide
  ⟨habs, lookupUp_terminates _ habs⟩

/-- From a normalized relative path, the walk returns the entry of the longest ancestor, the
    path itself included and `.` excluded, that `mapping` has. -/
theorem lookupUp_joinSegments (mapping : List (String × ι)) :
    ∀ (rel : List String), rel ≠ [] → (∀ s ∈ rel, Segment s) → ∀ fuel, rel.length < fuel →
      lookupUp mapping fuel (joinSegments rel) =
        some (rel.inits.reverse.dropLast.findSome? fun a => mapping.lookup (joinSegments a)) := by
  intro rel
  induction rel using List.reverseRecOn with
  | nil => exact fun h => absurd rfl h
  | append_singleton d s ih =>
    intro _ hrel fuel hf
    obtain ⟨fuel, rfl⟩ := Nat.exists_eq_add_of_lt hf
    have hd : ∀ x ∈ d, Segment x := fun x hx => hrel x (by simp [hx])
    have hinits : (d ++ [s]).inits.reverse.dropLast = (d ++ [s]) :: d.inits.reverse.dropLast := by
      rw [List.inits_append, List.reverse_append]
      simp only [List.inits, List.tail_cons, List.map_cons, List.map_nil, List.reverse_cons,
        List.reverse_nil, List.nil_append, List.singleton_append]
      exact List.dropLast_cons_of_ne_nil (List.reverse_ne_nil_iff.2 (by cases d <;> simp [List.inits]))
    rw [lookupUp, if_neg (joinSegments_ne_dot hrel (by simp)), hinits, List.findSome?_cons]
    cases mapping.lookup (joinSegments (d ++ [s]))
    · simp only
      rw [dirname_joinSegments_concat hd (hrel s (by simp))]
      split
      · next h =>
        subst h
        rw [Nat.add_comm]
        rfl
      · next h =>
        exact ih h hd _ (by simp only [List.length_append, List.length_singleton]; omega)
    · rfl

/-- When the real path of `filepath` lies under the source directory of its nearest chroot,
    `fromFilepath` returns the entry of the longest ancestor of the relative path, the path itself
    included and `.` excluded, that `mapping` has, if the relative path does not start with
    `..`. -/
theorem fromFilepath_nearest (cwd : List String) (realpath : String → Option String)
    (existsSync : String → Bool) (mapping : List (String × ι)) (filepath : String)
    (source rel : Segments) (hrel : rel.segs ≠ [])
    (hrp : realPathOf realpath filepath = some (absPath (source.segs ++ rel.segs)))
    (hchroot : findChroot existsSync (absPath (source.segs ++ rel.segs)) =
      some (absPath (source.segs ++ ["chroot"])))
    (hdots : ['.', '.'].isPrefixOf (joinSegments rel.segs).toList = false) :
    fromFilepath cwd realpath existsSync mapping filepath =
      rel.segs.inits.reverse.dropLast.findSome? fun a => mapping.lookup (joinSegments a) := by
  have hsrc : sourceDir (absPath (source.segs ++ ["chroot"])) = absPath source.segs :=
    dirname_absPath_concat source.segment (by decide)
  simp only [fromFilepath, hrp, hchroot, Option.bind_eq_bind, Option.some_bind, hsrc,
    relative_absPath_append cwd source.segment rel.segment, hdots,
    isAbsolute_joinSegments rel.segment hrel, Bool.or_false, Bool.false_eq_true, if_false]
  rw [lookupUp_joinSegments mapping rel.segs hrel rel.segment _
    (by have := length_le_joinChars rel.segs; simp only [joinSegments, String.length]; omega)]
  rfl

example : fromFilepath [] some (fun s => s = "/cros/chroot/etc/cros_chroot_version")
    [("platform", 2), ("platform/foo", 1)] "/cros/platform/foo/bar/x.cc" = some 1 := by
  decide

/-- In the source directory `/cros` of the chroot `/cros/chroot`, the file `..hidden/x.cc` of the
    directory `..hidden`, which `mapping` has: `fromFilepath` returns `null`. -/
theorem fromFilepath_dotdot_directory :
    findChroot (fun s => resolve [] s = ["cros", "chroot", "etc", "cros_chroot_version"])
        "/cros/..hidden/x.cc" = some "/cros/chroot" ∧
      relative [] (sourceDir "/cros/chroot") "/cros/..hidden/x.cc" = "..hidden/x.cc" ∧
      (["..hidden", "x.cc"].inits.reverse.dropLast.findSome? fun a =>
        [("..hidden", 1)].lookup (joinSegments a)) = some 1 ∧
      fromFilepath [] some (fun s => resolve [] s = ["cros", "chroot", "etc", "cros_chroot_version"])
        [("..hidden", 1)] "/cros/..hidden/x.cc" = none := by
  decide

end CrosIde.Packages
