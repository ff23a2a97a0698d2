import CrosIde.Misc.Path

/-!
# `findChroot` and `findGitDir`

`findChroot` (`common_util.ts:38-52`) and `findGitDir` (`common_util.ts:420-439`) walk up the
`path.dirname` chain of a directory until a test holds: `isChroot` of its `chroot`, or that its
`.git` exists. Both loops are `walkUp`, with the fuel `length + 2`, which is enough for every
path string (`walkUp_isSome`): `dirname` brings the `height` of a path down until it reaches
`.` or `/`, its fixed points.

On a normalized absolute path, `absPath` of its segments, the chain is the path and its
ancestors, nearest first (`walkUp_absPath`), so `findChroot` returns the `chroot` of the nearest
ancestor-or-self whose `chroot/etc/cros_chroot_version` exists (`findChroot_absPath`), and
`findGitDir` the nearest directory with a `.git`, from the path itself when it is a directory
and from its parent otherwise (`findGitDir_absPath`). On other strings the chain is not the
ancestors: `dirname` works on the text, so a `..` segment makes the walk visit directories
outside the path, and a relative path stops at `.`, the working directory.

`fs.existsSync` and whether `fs.statSync` finds a regular file are parameters: functions of the
path string they are given.
-/

namespace CrosIde.CommonUtil

open Path

/-- The walk up the `path.dirname` chain of `findChroot` and `findGitDir`: the first directory
    from `dir` at which `found` holds, `undefined` as `none` once `path.dirname` returns its
    argument. `fuel` bounds the iterations; running out of it is the outer `none`. -/
def walkUp (found : String → Bool) : Nat → String → Option (Option String)
  | 0, _ => none
  | fuel + 1, dir =>
    if found dir then some (some dir)
    else if dirname dir = dir then some none
    else walkUp found fuel (dirname dir)

/-- `isChroot(dir)` (`common_util.ts:31-33`). -/
def isChroot (existsSync : String → Bool) (dir : String) : Bool :=
  existsSync (join dir "/etc/cros_chroot_version")

/-- `findChroot(dir)` (`common_util.ts:38-52`). -/
def findChroot (existsSync : String → Bool) (dir : String) : Option String :=
  ((walkUp (fun d => isChroot existsSync (join d "chroot")) (dir.length + 2) dir).join).map
    (join · "chroot")

/-- `sourceDir(chroot)` (`common_util.ts:57-59`). -/
def sourceDir (chroot : String) : String := dirname chroot

/-- `findGitDir(filePath)` (`common_util.ts:420-439`): the walk starts from `filePath` when it
    exists and is not a regular file, and from its `dirname` otherwise. -/
def findGitDir (existsSync isFile : String → Bool) (filePath : String) : Option String :=
  let dir := if !existsSync filePath then dirname filePath
    else if isFile filePath then dirname filePath else filePath
  (walkUp (fun d => existsSync (join d ".git")) (dir.length + 2) dir).join

/-! ## The walks end -/

/-- The walk ends, by its test or at a fixed point of `dirname`, within `height dir + 1`
    iterations. -/
theorem walkUp_isSome (found : String → Bool) :
    ∀ (fuel : Nat) (dir : String), height dir < fuel → (walkUp found fuel dir).isSome
  | 0, _, h => absurd h (Nat.not_lt_zero _)
  | fuel + 1, dir, h => by
    unfold walkUp
    split
    · rfl
    · split
      · rfl
      · next hd => exact walkUp_isSome found fuel _ (by have := height_dirname_lt hd; omega)

theorem walkUp_terminates (found : String → Bool) (dir : String) :
    (walkUp found (dir.length + 2) dir).isSome :=
  walkUp_isSome found _ dir (by have := height_le dir; omega)

/-! ## The walks on normalized paths -/

/-- From a normalized absolute path, the walk visits the path and its ancestors, nearest
    first, and returns the first at which `found` holds. -/
theorem walkUp_absPath (found : String → Bool) (P : List String → Bool) :
    ∀ (d : List String), (∀ s ∈ d, Segment s) → (∀ a, a <+: d → found (absPath a) = P a) →
      ∀ fuel, d.length < fuel → walkUp found fuel (absPath d) = some ((d.inits.reverse.find? P).map absPath) := by
  intro d
  induction d using List.reverseRecOn with
  | nil =>
    intro _ hP fuel hf
    obtain ⟨fuel, rfl⟩ := Nat.exists_eq_add_of_lt hf
    rw [walkUp, hP [] (List.nil_prefix)]
    cases h : P [] <;> simp [h, show dirname (absPath []) = absPath [] by decide]
  | append_singleton d s ih =>
    intro hd hP fuel hf
    obtain ⟨fuel, rfl⟩ := Nat.exists_eq_add_of_lt hf
    have hd' : ∀ x ∈ d, Segment x := fun x hx => hd x (by simp [hx])
    have hne := absPath_ne_fixed hd (List.append_ne_nil_of_right_ne_nil d (List.cons_ne_nil s []))
    have hinits : (d ++ [s]).inits.reverse = (d ++ [s]) :: d.inits.reverse := by
      simp [List.inits_append]
    rw [walkUp, hP _ (List.prefix_refl _), hinits, List.find?_cons]
    cases P (d ++ [s])
    · rw [if_neg (by simp), if_neg (dirname_ne_self hne.1 hne.2),
        dirname_absPath_concat hd' (hd s (by simp)),
        ih hd' (fun a ha => hP a (ha.trans (List.prefix_append _ _))) _
          (by simp only [List.length_append, List.length_singleton] at *; omega)]
    · simp

/-- The `chroot` test of an ancestor of a normalized path is the existence of its
    `chroot/etc/cros_chroot_version`. -/
theorem isChroot_join_absPath (existsSync : String → Bool) {a : List String}
    (ha : ∀ s ∈ a, Segment s) :
    isChroot existsSync (join (absPath a) "chroot") =
      existsSync (absPath (a ++ ["chroot", "etc", "cros_chroot_version"])) := by
  have hc : ∀ s ∈ ["chroot"], Segment s := by decide
  have he : ∀ s ∈ ["etc", "cros_chroot_version"], Segment s := by decide
  rw [isChroot, join_absPath_segment ha (hc _ (List.mem_singleton_self _)),
    show "/etc/cros_chroot_version" = absPath ["etc", "cros_chroot_version"] from rfl,
    join_absPath_absPath (fun s hs => (List.mem_append.1 hs).elim (ha s) (hc s)) he
      (List.cons_ne_nil _ _)]
  simp

theorem segment_of_ancestor {a d : List String} (hd : ∀ s ∈ d, Segment s) (ha : a <+: d) :
    ∀ s ∈ a, Segment s :=
  fun s hs => hd s (ha.subset hs)

/-- `findChroot` of a normalized absolute path returns the `chroot` of its nearest
    ancestor-or-self whose `chroot/etc/cros_chroot_version` exists. -/
theorem findChroot_absPath (existsSync : String → Bool) (p : Segments) :
    findChroot existsSync (absPath p.segs) =
      (p.segs.inits.reverse.find? fun a =>
          existsSync (absPath (a ++ ["chroot", "etc", "cros_chroot_version"]))).map
        fun a => absPath (a ++ ["chroot"]) := by
  have hfuel : p.segs.length < (absPath p.segs).length + 2 := by
    have := length_le_joinChars p.segs; simp only [absPath, String.length, List.length_cons]; omega
  rw [findChroot, walkUp_absPath (fun d => isChroot existsSync (join d "chroot"))
    (fun a => existsSync (absPath (a ++ ["chroot", "etc", "cros_chroot_version"]))) p.segs p.segment
    (fun a ha => isChroot_join_absPath existsSync (segment_of_ancestor p.segment ha)) _ hfuel]
  cases h : p.segs.inits.reverse.find? fun a =>
      existsSync (absPath (a ++ ["chroot", "etc", "cros_chroot_version"])) with
  | none => rfl
  | some a =>
    have ha : a <+: p.segs := List.mem_inits _ _ |>.1 (List.mem_reverse.1 (List.mem_of_find?_eq_some h))
    simp only [Option.map_some', Option.join, Option.some_bind, id]
    rw [join_absPath_segment (segment_of_ancestor p.segment ha) (by decide : Segment "chroot")]

/-- `findGitDir` of a normalized absolute path returns its nearest ancestor with a `.git`, from
    the path itself when it exists and is not a regular file, and from its parent otherwise. -/
theorem findGitDir_absPath (existsSync isFile : String → Bool) (p : Segments) :
    findGitDir existsSync isFile (absPath p.segs) =
      ((if existsSync (absPath p.segs) && !isFile (absPath p.segs) then p.segs
          else p.segs.dropLast).inits.reverse.find?
        fun a => existsSync (absPath (a ++ [".git"]))).map absPath := by
  have hg : ∀ s ∈ [".git"], Segment s := by decide
  have hstart : ∀ start : List String, start <+: p.segs →
      (walkUp (fun d => existsSync (join d ".git")) ((absPath start).length + 2) (absPath start)).join =
        (start.inits.reverse.find? fun a => existsSync (absPath (a ++ [".git"]))).map absPath := by
    intro start hs
    have hseg := segment_of_ancestor p.segment hs
    rw [walkUp_absPath _ _ start hseg (fun a ha => by
      rw [join_absPath_segment (segment_of_ancestor hseg ha) (hg _ (List.mem_singleton_self _))]) _
      (by have := length_le_joinChars start; simp only [absPath, String.length, List.length_cons]; omega)]
    rfl
  rw [findGitDir, dirname_absPath p.segment]
  cases existsSync (absPath p.segs) <;> cases isFile (absPath p.segs)
  all_goals simp only [Bool.not_false, Bool.not_true, if_true, if_false, Bool.and_false,
    Bool.and_true, Bool.false_eq_true]
  all_goals first
    | exact hstart _ (List.dropLast_prefix _)
    | exact hstart _ (List.prefix_refl _)

/-- Both walks end on every path string, and on a normalized absolute path they return the
    nearest ancestor-or-self that passes their test. -/
theorem findChroot_findGitDir_nearest :
    (∀ (found : String → Bool) (dir : String), (walkUp found (dir.length + 2) dir).isSome) ∧
      (∀ (existsSync : String → Bool) (p : Segments),
        findChroot existsSync (absPath p.segs) =
          (p.segs.inits.reverse.find? fun a =>
              existsSync (absPath (a ++ ["chroot", "etc", "cros_chroot_version"]))).map
            fun a => absPath (a ++ ["chroot"])) ∧
      ∀ (existsSync isFile : String → Bool) (p : Segments),
        findGitDir existsSync isFile (absPath p.segs) =
          ((if existsSync (absPath p.segs) && !isFile (absPath p.segs) then p.segs
              else p.segs.dropLast).inits.reverse.find?
            fun a => existsSync (absPath (a ++ [".git"]))).map absPath :=
  ⟨walkUp_terminates, findChroot_absPath, findGitDir_absPath⟩

/-- `dirname` works on the text. From `/a/b/../c`, which is `/a/c`, `findChroot` visits `/a/b`
    and returns its `chroot`, though none of `/a/c`, `/a` and `/` has one. From `f.txt` in the
    working directory `/r/s`, `findGitDir` stops at `.` and misses the `.git` of `/r`. -/
theorem walks_leave_the_path :
    resolve [] "/a/b/../c" = ["a", "c"] ∧
      let chroots : String → Bool := fun s =>
        resolve [] s = ["a", "b", "chroot", "etc", "cros_chroot_version"]
      let cwd := ["r", "s"]
      let files : String → Bool := fun s => resolve cwd s = ["r", "s", "f.txt"]
      let present : String → Bool := fun s => files s || resolve cwd s = ["r", ".git"]
      (["/a/c", "/a", "/"].all fun d => !isChroot chroots (join d "chroot")) ∧
        findChroot chroots "/a/b/../c" = some "/a/b/chroot" ∧
        present "/r/.git" ∧ findGitDir present files "f.txt" = none := by
  decide

end CrosIde.CommonUtil
