import CrosIde.CppCodeCompletion.RemoveCache
import CrosIde.Misc.JsDate
import Mathlib.Data.List.Sort

/-!
# `Ebuild.artifactPath`

`Ebuild.artifactPath` of `compdb_service/index.ts:202-229`, the last step of the critical
section of `Ebuild.generate`: it looks for `compile_commands_no_chroot.json` under each build
directory, on the chroot and on the out filesystem, collects `[stat.mtime, artifact]` for each
file `fs.stat` finds, and returns the artifact of `candidates.sort().pop()`.

`sort()` has no comparator, so it orders the candidates by their string forms, the `Date`'s
`toString()` followed by `,[object Object]`; the sort is stable, and `pop()` takes the last. So
the artifact returned has the greatest string form (`artifactPath_max`), and a date's string
starts with its weekday's name: the artifact is one whose `mtime` falls on the weekday whose name
comes last among the candidates' (`artifactPath_weekDay`), not the most recent one
(`artifactPath_sunday_monday`).

`CrosFs` is absent from the sources; the `stat` of each filesystem is a parameter, `none` where
it throws, and so is the `root` of each. A `Date` is given by its time value in milliseconds.
-/

namespace CrosIde.CppCodeCompletion.Ebuild

open JsDate

/-- `Artifact` (`compdb_service/index.ts:22-27`). -/
structure Artifact where
  baseDir : String
  path : String
deriving DecidableEq, Repr

/-- The file `artifactPath` looks for under `dir` (`compdb_service/index.ts:205-208`). -/
def compdbFile (dir : String) : String :=
  joinPath dir "out/Default/compile_commands_no_chroot.json"

section ArtifactPath

variable (tz : TimeZone) (stat : Fs → String → Option Int) (root : Fs → String)

/-- The loops of `artifactPath` over `dirs` (`compdb_service/index.ts:203-224`): for each
    directory, on the chroot and then on the out filesystem, the `mtime` of the file and its
    artifact when `fs.stat` returns. -/
def candidatesOf (dirs : List String) : List (Int × Artifact) :=
  dirs.flatMap fun dir => [Fs.chroot, .out].filterMap fun fs =>
    (stat fs (compdbFile dir)).map fun mtime => (mtime, ⟨root fs, compdbFile dir⟩)

/-- The string form of a candidate `[mtime, artifact]`: the two elements' string forms joined
    with `,`. -/
def candidateString (c : Int × Artifact) : String := toDateString tz c.1 ++ ",[object Object]"

/-- `candidates.sort()`: `SortCompare` with no comparator orders by the string forms, and the
    sort is stable. -/
def sortCandidates (candidates : List (Int × Artifact)) : List (Int × Artifact) :=
  @List.insertionSort _ (fun a b => candidateString tz a ≤ candidateString tz b)
    (fun _ _ => decidable_of_iff _ String.le_iff_toList_le.symm) candidates

/-- `artifactPath()` (`compdb_service/index.ts:202-229`). -/
def artifactPath (sysroot qualifiedPackageName : String) : Option Artifact :=
  let candidates := candidatesOf stat root (buildDirs sysroot qualifiedPackageName)
  if candidates.length = 0 then none
  else ((sortCandidates tz candidates).getLast?).map Prod.snd

theorem perm_sortCandidates (candidates : List (Int × Artifact)) :
    (sortCandidates tz candidates).Perm candidates :=
  @List.perm_insertionSort _ _ (fun _ _ => decidable_of_iff _ String.le_iff_toList_le.symm) _

theorem sorted_sortCandidates (candidates : List (Int × Artifact)) :
    (sortCandidates tz candidates).Sorted
      fun a b => candidateString tz a ≤ candidateString tz b :=
  @List.sorted_insertionSort _ (fun a b => candidateString tz a ≤ candidateString tz b)
    (fun _ _ => decidable_of_iff _ String.le_iff_toList_le.symm) ⟨fun _ _ => le_total _ _⟩
    ⟨fun _ _ _ => le_trans⟩ _

/-- The candidate `pop()` takes has the greatest string form, and is one of the candidates. -/
theorem getLast_sortCandidates {candidates : List (Int × Artifact)} {c : Int × Artifact}
    (h : (sortCandidates tz candidates).getLast? = some c) :
    c ∈ candidates ∧ ∀ c' ∈ candidates, candidateString tz c' ≤ candidateString tz c := by
  obtain ⟨l, hl⟩ := List.getLast?_eq_some_iff.1 h
  have hp := perm_sortCandidates tz candidates
  have hs := sorted_sortCandidates tz candidates
  rw [hl] at hp hs
  refine ⟨hp.mem_iff.1 (by simp), fun c' hc' => ?_⟩
  rcases List.mem_append.1 (hp.mem_iff.2 hc') with hc' | hc'
  · exact (List.pairwise_append.1 hs).2.2 c' hc' c (List.mem_singleton_self c)
  · rw [List.mem_singleton.1 hc']

/-- When `fs.stat` finds the file somewhere, `artifactPath` returns the artifact of a
    candidate whose string form is the greatest. -/
theorem artifactPath_max (sysroot qualifiedPackageName : String)
    (h : candidatesOf stat root (buildDirs sysroot qualifiedPackageName) ≠ []) :
    ∃ mtime a, artifactPath tz stat root sysroot qualifiedPackageName = some a ∧
      (mtime, a) ∈ candidatesOf stat root (buildDirs sysroot qualifiedPackageName) ∧
      ∀ c ∈ candidatesOf stat root (buildDirs sysroot qualifiedPackageName),
        candidateString tz c ≤ candidateString tz (mtime, a) := by
  obtain ⟨c, hc⟩ : ∃ c, (sortCandidates tz
      (candidatesOf stat root (buildDirs sysroot qualifiedPackageName))).getLast? = some c := by
    refine Option.isSome_iff_exists.1 (List.getLast?_isSome.2 fun he => h ?_)
    exact List.Perm.eq_nil (he ▸ (perm_sortCandidates tz _).symm)
  obtain ⟨hmem, hmax⟩ := getLast_sortCandidates tz hc
  refine ⟨c.1, c.2, ?_, hmem, hmax⟩
  simp [artifactPath, List.length_eq_zero, h, hc]

/-- When `fs.stat` finds the file somewhere, the artifact returned is that of a candidate whose
    string form is the greatest, so it was modified on the weekday whose name comes last,
    alphabetically, among the weekdays of the candidates. -/
theorem artifactPath_weekDay (sysroot qualifiedPackageName : String)
    (h : candidatesOf stat root (buildDirs sysroot qualifiedPackageName) ≠ []) :
    ∃ mtime a, artifactPath tz stat root sysroot qualifiedPackageName = some a ∧
      (mtime, a) ∈ candidatesOf stat root (buildDirs sysroot qualifiedPackageName) ∧
      (∀ c ∈ candidatesOf stat root (buildDirs sysroot qualifiedPackageName),
        candidateString tz c ≤ candidateString tz (mtime, a)) ∧
      ∀ c ∈ candidatesOf stat root (buildDirs sysroot qualifiedPackageName),
        ¬ weekDayNames.getD (localWeekDay tz mtime) "" <
          weekDayNames.getD (localWeekDay tz c.1) "" := by
  obtain ⟨mtime, a, ha, hmem, hmax⟩ := artifactPath_max tz stat root sysroot qualifiedPackageName h
  exact ⟨mtime, a, ha, hmem, hmax, fun c hc hlt =>
    (hmax c hc).not_lt (toDateString_append_lt _ _ hlt)⟩

end ArtifactPath

/-- On a host in UTC, the compilation database of `chromeos-base/codelab` for `eve` was written
    on the chroot filesystem on Sunday 2023-01-01 and on the out filesystem on Monday
    2023-01-02: `artifactPath` returns the older one, since `Sun Jan 01 2023 ...` sorts after
    `Mon Jan 02 2023 ...`. -/
theorem artifactPath_sunday_monday :
    let tz : TimeZone := ⟨fun _ => 0, fun _ => "Coordinated Universal Time"⟩
    let dir := "/build/eve/var/cache/portage/chromeos-base/codelab"
    let stat : Fs → String → Option Int := fun fs file =>
      if file = compdbFile dir then
        some (match fs with | .chroot => 1672531200000 | .out => 1672617600000)
      else none
    let root : Fs → String := fun fs =>
      match fs with | .chroot => "/mnt/host/chroot" | .out => "/mnt/host/out"
    candidatesOf stat root (buildDirs "/build/eve" "chromeos-base/codelab") =
        [(1672531200000, ⟨"/mnt/host/chroot", compdbFile dir⟩),
          (1672617600000, ⟨"/mnt/host/out", compdbFile dir⟩)] ∧
      artifactPath tz stat root "/build/eve" "chromeos-base/codelab" =
        some ⟨"/mnt/host/chroot", compdbFile dir⟩ := by
  decide

/-- The two candidates of `artifactPath_sunday_monday`: the Sunday one is returned. -/
theorem artifactPath_weekDay_sunday :
    let tz : TimeZone := ⟨fun _ => 0, fun _ => "Coordinated Universal Time"⟩
    let stat : Fs → String → Option Int := fun fs file =>
      if file = compdbFile "/build/eve/var/cache/portage/chromeos-base/codelab" then
        some (match fs with | .chroot => 1672531200000 | .out => 1672617600000)
      else none
    let root : Fs → String := fun fs =>
      match fs with | .chroot => "/mnt/host/chroot" | .out => "/mnt/host/out"
    candidatesOf stat root (buildDirs "/build/eve" "chromeos-base/codelab") ≠ [] ∧
      ∃ mtime a, artifactPath tz stat root "/build/eve" "chromeos-base/codelab" = some a ∧
        (mtime, a) ∈ candidatesOf stat root (buildDirs "/build/eve" "chromeos-base/codelab") ∧
        (∀ c ∈ candidatesOf stat root (buildDirs "/build/eve" "chromeos-base/codelab"),
          candidateString tz c ≤ candidateString tz (mtime, a)) ∧
        ∀ c ∈ candidatesOf stat root (buildDirs "/build/eve" "chromeos-base/codelab"),
          ¬ weekDayNames.getD (localWeekDay tz mtime) "" <
            weekDayNames.getD (localWeekDay tz c.1) "" :=
  have h : candidatesOf (fun fs file =>
      if file = compdbFile "/build/eve/var/cache/portage/chromeos-base/codelab" then
        some (match fs with | .chroot => 1672531200000 | .out => 1672617600000)
      else none) (fun fs => match fs with | .chroot => "/mnt/host/chroot" | .out => "/mnt/host/out")
      (buildDirs "/build/eve" "chromeos-base/codelab") ≠ [] := by decide
  ⟨h, artifactPath_weekDay _ _ _ _ _ h⟩

end CrosIde.CppCodeCompletion.Ebuild
