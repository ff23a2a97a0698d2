import CrosIde.Misc.JsMap

/-!
# Device sessions: `connectToDeviceForScreen` and `ensureSshSession`

`connectToDeviceForScreen` (`commands/connect_vnc.ts:10-52`) and `ensureSshSession`
(`commands/device_add.ts:157-197`) keep one session per hostname in the maps `vncSessions` and
`sshSessions` of the `CommandContext` (`commands/device_add.ts:43-52`). Each call looks the
hostname up, awaits (the prompt for the hostname, the check of the forwarded port, the search
for a free port, the creation of the session), and only then `set`s its new session, whose
`onDidDispose` listener `delete`s the hostname, whichever session the map then holds for it.

A call is the phase at which it is suspended, and a run interleaves the resumptions of the calls
with the disposal of sessions (the user closes a panel, an SSH process exits). Over every
interleaving, an entry of a map is an undisposed session of its hostname (`Vnc.wf_run`,
`Ssh.wf_run`). But two calls for one hostname that both find no entry both create a session,
and disposing the first deletes the entry of the second (`two_sessions_for_one_host`). When no
two calls for one hostname are between the lookup and the `set` at once (`Admissible`), every
state a run reaches is `Consistent` (`Vnc.Reachable.inv`, `Ssh.Reachable.inv`): at most one
undisposed session per hostname (`Registry.Consistent.unique`), the entry of its hostname, and a
disposal deletes no entry but its own session's (`Registry.Consistent.eq_of_lookup_dispose_ne`).
`sessions_one_per_host` gathers these results for both maps.

`vnc_session.ts` and `ssh_session.ts` are absent from the sources: a session is its hostname,
the data of its kind (the `forwardPort` of an `SshSession`) and whether it has been disposed,
and `dispose()` runs the `onDidDispose` listeners of a session once, the first time.
-/

namespace CrosIde.DeviceManagement

/-- A `VncSession` or an `SshSession`: its hostname, the data of its kind, and whether it has
    been disposed. -/
structure Session (π : Type) where
  hostname : String
  data : π
  disposed : Bool
  deriving DecidableEq, Repr

/-- The sessions created so far, numbered in the order of their creation, and
    `context.vncSessions` or `context.sshSessions` (`commands/device_add.ts:48-49`), from a
    hostname to the number of its session. -/
structure Registry (π : Type) where
  sessions : List (Session π)
  map : List (String × Nat)
  deriving DecidableEq, Repr

namespace Registry

variable {π : Type}

/-- A new session for `hostname` whose `onDidDispose` listener is registered, then
    `set(hostname, newSession)` (`commands/connect_vnc.ts:46-49`,
    `commands/device_add.ts:192-193`). -/
def add (r : Registry π) (hostname : String) (data : π) : Registry π :=
  ⟨r.sessions ++ [⟨hostname, data, false⟩], mapSet r.map hostname r.sessions.length⟩

/-- `dispose()` of the session `n`: the first time, its `onDidDispose` listener runs
    `delete(hostname)` (`commands/connect_vnc.ts:46-48`, `commands/device_add.ts:192`) for its
    own hostname, whichever session the map holds for it. -/
def dispose (r : Registry π) (n : Nat) : Registry π :=
  match r.sessions[n]? with
  | some s =>
    if s.disposed then r
    else ⟨r.sessions.set n { s with disposed := true }, mapDelete r.map s.hostname⟩
  | none => r

/-- What holds of a registry over every interleaving: the keys of the map are distinct, and an
    entry is an undisposed session of its hostname. -/
structure WF (r : Registry π) : Prop where
  nodup : (r.map.map Prod.fst).Nodup
  valid : ∀ h n, r.map.lookup h = some n →
    ∃ s, r.sessions[n]? = some s ∧ s.hostname = h ∧ s.disposed = false

/-- The registry one session per hostname needs: besides `WF`, an undisposed session is the
    entry of its hostname. -/
structure Consistent (r : Registry π) extends r.WF : Prop where
  mapped : ∀ n s, r.sessions[n]? = some s → s.disposed = false → r.map.lookup s.hostname = some n

variable {r : Registry π}

theorem lookup_add (r : Registry π) (h h' : String) (d : π) :
    (r.add h d).map.lookup h' = if h' = h then some r.sessions.length else r.map.lookup h' :=
  lookup_mapSet _ _ _ _

/-- The sessions after `add`: the old ones, then the new one. -/
theorem getElem?_add_sessions {h : String} {d : π} {n : Nat} {s : Session π}
    (hs : (r.add h d).sessions[n]? = some s) :
    r.sessions[n]? = some s ∨ n = r.sessions.length ∧ s = ⟨h, d, false⟩ := by
  simp only [add, List.getElem?_append] at hs
  split at hs
  · exact .inl hs
  · next hn =>
    obtain ⟨hlt, e⟩ := List.getElem?_eq_some_iff.1 hs
    simp only [List.length_singleton] at hlt
    exact .inr ⟨by omega, by simpa using e.symm⟩

theorem getElem?_add_of_eq_some {h : String} {d : π} {n : Nat} {s : Session π}
    (hs : r.sessions[n]? = some s) : (r.add h d).sessions[n]? = some s := by
  rw [add, List.getElem?_append_left (List.getElem?_eq_some_iff.1 hs).1, hs]

/-- A disposal changes nothing, or disposes an undisposed session and deletes its hostname. -/
theorem dispose_cases (r : Registry π) (n : Nat) :
    r.dispose n = r ∨ ∃ s, r.sessions[n]? = some s ∧ s.disposed = false ∧
      r.dispose n = ⟨r.sessions.set n { s with disposed := true }, mapDelete r.map s.hostname⟩ := by
  unfold dispose
  split
  · next s hs => by_cases hd : s.disposed <;> simp [hd, hs]
  · exact .inl rfl

/-- A disposal deletes at most one entry. -/
theorem lookup_dispose (hr : (r.map.map Prod.fst).Nodup) (n : Nat) (h : String) :
    (r.dispose n).map.lookup h = r.map.lookup h ∨ (r.dispose n).map.lookup h = none := by
  rcases dispose_cases r n with e | ⟨s, -, -, e⟩
  · exact .inl (by rw [e])
  · simp only [e, lookup_mapDelete hr]
    split <;> simp

/-- Disposing the session of an entry deletes the entry. -/
theorem WF.lookup_dispose_self (hr : r.WF) {h : String} {n : Nat} (hn : r.map.lookup h = some n) :
    (r.dispose n).map.lookup h = none := by
  obtain ⟨s, hs, rfl, hd⟩ := hr.valid h n hn
  simp [dispose, hs, hd, lookup_mapDelete hr.nodup]

theorem WF.add (hr : r.WF) (h : String) (d : π) : (r.add h d).WF where
  nodup := nodup_mapSet hr.nodup _ _
  valid h' n hn := by
    rw [lookup_add] at hn
    split at hn
    · next e => cases hn; exact ⟨_, List.getElem?_concat_length _ _, e.symm, rfl⟩
    · obtain ⟨s, hs, hh, hd⟩ := hr.valid h' n hn
      exact ⟨s, getElem?_add_of_eq_some hs, hh, hd⟩

theorem WF.dispose (hr : r.WF) (n : Nat) : (r.dispose n).WF := by
  rcases dispose_cases r n with e | ⟨s, hs, -, e⟩
  · rwa [e]
  · rw [e]
    refine ⟨by rw [keys_mapDelete]; exact hr.nodup.erase _, fun h m hm => ?_⟩
    simp only [lookup_mapDelete hr.nodup] at hm
    split at hm
    · cases hm
    · next hh =>
      obtain ⟨s', hs', rfl, hd'⟩ := hr.valid h m hm
      have hnm : n ≠ m := by rintro rfl; exact hh (by rw [hs'] at hs; cases hs; rfl)
      exact ⟨s', by rw [List.getElem?_set_ne hnm, hs'], rfl, hd'⟩

theorem Consistent.add (hr : r.Consistent) {h : String} (hh : r.map.lookup h = none) (d : π) :
    (r.add h d).Consistent where
  toWF := hr.toWF.add h d
  mapped m s hs hd := by
    rw [lookup_add]
    rcases getElem?_add_sessions hs with hs | ⟨rfl, rfl⟩
    · have hm := hr.mapped m s hs hd
      have hne : s.hostname ≠ h := by rintro rfl; rw [hh] at hm; cases hm
      rw [if_neg hne, hm]
    · simp

theorem Consistent.dispose (hr : r.Consistent) (n : Nat) : (r.dispose n).Consistent := by
  rcases dispose_cases r n with e | ⟨s, hs, hd, e⟩
  · rwa [e]
  · refine ⟨hr.toWF.dispose n, fun m s' hs' hd' => ?_⟩
    rw [e] at hs' ⊢
    have hnm : n ≠ m := by
      rintro rfl
      rw [List.getElem?_set_self (List.getElem?_eq_some_iff.1 hs).1] at hs'
      cases hs'; cases hd'
    rw [List.getElem?_set_ne hnm] at hs'
    have hm := hr.mapped m s' hs' hd'
    have hne : s'.hostname ≠ s.hostname := by
      intro hh
      rw [hh, hr.mapped n s hs hd] at hm
      exact hnm (Option.some.inj hm)
    simp only [lookup_mapDelete hr.nodup, if_neg hne, hm]

/-- At most one undisposed session per hostname. -/
theorem Consistent.unique (hr : r.Consistent) {m n : Nat} {s s' : Session π}
    (hs : r.sessions[m]? = some s) (hs' : r.sessions[n]? = some s')
    (hh : s.hostname = s'.hostname) (hd : s.disposed = false) (hd' : s'.disposed = false) :
    m = n := by
  have hm := hr.mapped m s hs hd
  rw [hh, hr.mapped n s' hs' hd'] at hm
  exact (Option.some.inj hm).symm

/-- A disposal deletes no entry but its own session's. -/
theorem Consistent.eq_of_lookup_dispose_ne (hr : r.Consistent) {n : Nat} {h : String}
    (hne : (r.dispose n).map.lookup h ≠ r.map.lookup h) : r.map.lookup h = some n := by
  rcases dispose_cases r n with e | ⟨s, hs, hd, e⟩
  · exact absurd (by rw [e]) hne
  · simp only [e, lookup_mapDelete hr.nodup] at hne
    split at hne
    · next hh => rw [hh]; exact hr.mapped n s hs hd
    · exact absurd rfl hne

/-- What one session per hostname means for a registry: it is `Consistent`, at most one session
    per hostname is undisposed, and a disposal deletes no entry but its own session's. -/
def OnePerHost (r : Registry π) : Prop :=
  r.Consistent ∧
    (∀ (m n : Nat) (s s' : Session π), r.sessions[m]? = some s → r.sessions[n]? = some s' →
      s.hostname = s'.hostname → s.disposed = false → s'.disposed = false → m = n) ∧
    ∀ (n : Nat) (h : String),
      (r.dispose n).map.lookup h ≠ r.map.lookup h → r.map.lookup h = some n

theorem Consistent.onePerHost (hr : r.Consistent) : r.OnePerHost :=
  ⟨hr, fun _ _ _ _ hs hs' hh hd hd' => hr.unique hs hs' hh hd hd',
    fun _ _ hne => hr.eq_of_lookup_dispose_ne hne⟩

end Registry

/-! ## Calls between the lookup and the `set` -/

section Windows

variable {π φ : Type} (pending : φ → Option String) (found : φ → Option Nat)

/-- The hostname of call `i`, when it is between its lookup of the map and its `set`. -/
def pendingAt (calls : List φ) (i : Nat) : Option String := (calls[i]?).bind pending

/-- The session that call `i` found in the map and awaits on. -/
def foundAt (calls : List φ) (i : Nat) : Option Nat := (calls[i]?).bind found

/-- The calls between their lookup and their `set`: no two for one hostname, and the map holds,
    for the hostname of each, no entry or the session the call found there. -/
structure Windows (r : Registry π) (calls : List φ) : Prop where
  exclusive : ∀ i j h, pendingAt pending calls i = some h → pendingAt pending calls j = some h →
    i = j
  vacant : ∀ i h, pendingAt pending calls i = some h →
    r.map.lookup h = none ∨ r.map.lookup h = foundAt found calls i

variable {pending found} {r : Registry π} {calls : List φ}

theorem Windows.nil : Windows pending found r [] :=
  ⟨fun _ _ _ hi => by simp [pendingAt] at hi, fun _ _ hi => by simp [pendingAt] at hi⟩

/-- The calls are the old ones but at `i`, where `x` is now: in no window, or in one for a
    hostname no other call is in. -/
theorem Windows.replace (hw : Windows pending found r calls) {calls' : List φ} {i : Nat} {x : φ}
    (hi : calls'[i]? = some x) (hj : ∀ j, j ≠ i → calls'[j]? = calls[j]?)
    (hx : ∀ h, pending x = some h → (∀ j, j ≠ i → pendingAt pending calls j ≠ some h) ∧
      (r.map.lookup h = none ∨ r.map.lookup h = found x)) :
    Windows pending found r calls' := by
  have hat : ∀ j h, pendingAt pending calls' j = some h →
      j = i ∧ pending x = some h ∨ j ≠ i ∧ pendingAt pending calls j = some h := by
    intro j h hjh
    by_cases hji : j = i
    · subst hji; simp only [pendingAt, hi, Option.some_bind] at hjh; exact .inl ⟨rfl, hjh⟩
    · simp only [pendingAt, hj j hji] at hjh; exact .inr ⟨hji, hjh⟩
  refine ⟨fun j k h hjh hkh => ?_, fun j h hjh => ?_⟩
  · rcases hat j h hjh with ⟨rfl, hxh⟩ | ⟨hji, hjh⟩ <;>
      rcases hat k h hkh with ⟨rfl, hxh'⟩ | ⟨hki, hkh⟩
    · rfl
    · exact absurd hkh ((hx h hxh).1 k hki)
    · exact absurd hjh ((hx h hxh').1 j hji)
    · exact hw.exclusive j k h hjh hkh
  · rcases hat j h hjh with ⟨rfl, hxh⟩ | ⟨hji, hjh⟩
    · simpa only [foundAt, hi, Option.some_bind] using (hx h hxh).2
    · simpa only [foundAt, hj j hji] using hw.vacant j h hjh

/-- Call `i` moves from `p` to `x`: into no window, or into the window of its own hostname or
    of one no call is in, with the map holding no entry for it or the one `x` found. -/
theorem Windows.set (hw : Windows pending found r calls) {i : Nat} {p x : φ}
    (hi : calls[i]? = some p)
    (hx : ∀ h, pending x = some h → (pending p = some h ∨ ∀ j, pendingAt pending calls j ≠ some h) ∧
      (r.map.lookup h = none ∨ r.map.lookup h = found x)) :
    Windows pending found r (calls.set i x) := by
  refine hw.replace (List.getElem?_set_self (List.getElem?_eq_some_iff.1 hi).1)
    (fun j hji => List.getElem?_set_ne (Ne.symm hji)) fun h hxh => ⟨fun j hji hjh => ?_, (hx h hxh).2⟩
  rcases (hx h hxh).1 with hp | hfree
  · exact hji (hw.exclusive j i h hjh (by simp [pendingAt, hi, hp]))
  · exact hfree j hjh

/-- A new call starts, in no window or in one no call is in. -/
theorem Windows.append (hw : Windows pending found r calls) {x : φ}
    (hx : ∀ h, pending x = some h → (∀ j, pendingAt pending calls j ≠ some h) ∧
      (r.map.lookup h = none ∨ r.map.lookup h = found x)) :
    Windows pending found r (calls ++ [x]) := by
  refine hw.replace (List.getElem?_concat_length _ _) (fun j hj => ?_)
    fun h hxh => ⟨fun j _ => (hx h hxh).1 j, (hx h hxh).2⟩
  rcases Nat.lt_or_gt_of_ne hj with hj | hj
  · exact List.getElem?_append_left hj
  · rw [List.getElem?_eq_none (by simp; omega), List.getElem?_eq_none (by omega)]

theorem Windows.dispose (hw : Windows pending found r calls) (hr : r.WF) (n : Nat) :
    Windows pending found (r.dispose n) calls :=
  ⟨hw.exclusive, fun i h hih =>
    (Registry.lookup_dispose hr.nodup n h).elim (fun e => e ▸ hw.vacant i h hih) .inl⟩

/-- The map has no entry for the hostname of a call in its window that found none. -/
theorem Windows.lookup_eq_none (hw : Windows pending found r calls) {i : Nat} {p : φ} {h : String}
    (hi : calls[i]? = some p) (hp : pending p = some h) (hf : found p = none) :
    r.map.lookup h = none :=
  (hw.vacant i h (by simp [pendingAt, hi, hp])).elim id fun e => by simpa [foundAt, hi, hf] using e

/-- Call `i`, in the window of `h`, sets its new session and leaves the window. -/
theorem Windows.set_add (hw : Windows pending found r calls) {i : Nat} {p x : φ} {h : String}
    (hi : calls[i]? = some p) (hp : pending p = some h) (hx : pending x = none) (d : π) :
    Windows pending found (r.add h d) (calls.set i x) := by
  have hs : Windows pending found r (calls.set i x) := hw.set hi (by simp [hx])
  refine ⟨hs.exclusive, fun j h' hjh => ?_⟩
  have hne : h' ≠ h := by
    rintro rfl
    have hji : j ≠ i := by
      rintro rfl
      simp [pendingAt, List.getElem?_set_self (List.getElem?_eq_some_iff.1 hi).1, hx] at hjh
    rw [pendingAt, List.getElem?_set_ne (Ne.symm hji)] at hjh
    exact hji (hw.exclusive j i h' hjh (by simp [pendingAt, hi, hp]))
  rw [Registry.lookup_add, if_neg hne]
  exact hs.vacant j h' hjh

end Windows

/-! ## `connectToDeviceForScreen` -/

namespace Vnc

/-- Where a call of `connectToDeviceForScreen` is suspended. -/
inductive Phase where
  /-- `await promptKnownHostnameIfNeeded(...)` (`commands/connect_vnc.ts:22-26`). -/
  | prompting
  /-- `await vnc.VncSession.create(hostname, ...)` (`commands/connect_vnc.ts:39-45`). -/
  | creating (hostname : String)
  /-- `await newSession.start()` of the session `n` (`commands/connect_vnc.ts:51`). -/
  | starting (n : Nat)
  /-- The call has returned. -/
  | done
  deriving DecidableEq, Repr

/-- The hostname of a call between its lookup of `context.vncSessions` and its `set`. -/
def Phase.pending : Phase → Option String
  | .creating hostname => some hostname
  | _ => none

/-- The VNC sessions and `context.vncSessions`, and the calls. -/
structure State where
  registry : Registry Unit
  /-- The sessions whose `revealPanel()` a call made, in order (`commands/connect_vnc.ts:32-35`). -/
  revealed : List Nat
  calls : List Phase
  deriving DecidableEq, Repr

/-- An event of a run. -/
inductive Event where
  /-- A call of `connectToDeviceForScreen` starts. -/
  | connect
  /-- The prompt of call `i` resolves, `undefined` as `none`. -/
  | prompted (i : Nat) (hostname : Option String)
  /-- `VncSession.create` of call `i` resolves. -/
  | created (i : Nat)
  /-- `newSession.start()` of call `i` settles. -/
  | started (i : Nat)
  /-- The session `n` is disposed. -/
  | dispose (n : Nat)
  deriving DecidableEq, Repr

def init : State := ⟨⟨[], []⟩, [], []⟩

/-- The prompt of call `i` resolves and the call runs to its next `await`
    (`commands/connect_vnc.ts:27-45`): `if (!hostname) return`, an existing session has its
    panel revealed, and otherwise the call awaits `create`. -/
def prompted (s : State) (i : Nat) : Option String → State
  | some hostname =>
    if hostname = "" then { s with calls := s.calls.set i .done }
    else match s.registry.map.lookup hostname with
      | some n => { s with revealed := s.revealed ++ [n], calls := s.calls.set i .done }
      | none => { s with calls := s.calls.set i (.creating hostname) }
  | none => { s with calls := s.calls.set i .done }

/-- One event. -/
def step (s : State) : Event → State
  | .connect => { s with calls := s.calls ++ [.prompting] }
  | .prompted i hostname => if s.calls[i]? = some .prompting then prompted s i hostname else s
  | .created i =>
    match s.calls[i]? with
    | some (.creating hostname) =>
      { s with registry := s.registry.add hostname (),
               calls := s.calls.set i (.starting s.registry.sessions.length) }
    | _ => s
  | .started i =>
    match s.calls[i]? with
    | some (.starting _) => { s with calls := s.calls.set i .done }
    | _ => s
  | .dispose n => { s with registry := s.registry.dispose n }

/-- The state after the events `tr`. -/
def run (tr : List Event) : State := tr.foldl step init

/-- A step adds a session, disposes one, or leaves the registry alone. -/
theorem registry_step (s : State) (e : Event) :
    (step s e).registry = s.registry ∨ (∃ h, (step s e).registry = s.registry.add h ()) ∨
      ∃ n, (step s e).registry = s.registry.dispose n := by
  cases e with
  | prompted i hostname =>
    refine .inl ?_
    simp only [step]
    split
    · unfold prompted; split
      · split
        · rfl
        · split <;> rfl
      · rfl
    · rfl
  | created i =>
    simp only [step]
    split
    · exact .inr (.inl ⟨_, rfl⟩)
    · exact .inl rfl
  | started i => simp only [step]; split <;> exact .inl rfl
  | connect => exact .inl rfl
  | dispose n => exact .inr (.inr ⟨n, rfl⟩)

/-- Over every interleaving, an entry of `context.vncSessions` is an undisposed session of its
    hostname: `revealPanel()` is never called on a disposed session. -/
theorem wf_run (tr : List Event) : (run tr).registry.WF := by
  suffices ∀ s : State, s.registry.WF → (tr.foldl step s).registry.WF from
    this init ⟨by simp [init], by simp [init]⟩
  induction tr with
  | nil => exact fun _ h => h
  | cons e tr ih =>
    intro s hs
    refine ih _ ?_
    rcases registry_step s e with e' | ⟨h, e'⟩ | ⟨n, e'⟩ <;> rw [e']
    exacts [hs, hs.add h (), hs.dispose n]

/-- An event that opens no second window for a hostname: a prompt for `hostname` resolves
    while no call awaits `create` for it. -/
def Admissible (s : State) : Event → Prop
  | .prompted _ (some hostname) => ∀ j, pendingAt Phase.pending s.calls j ≠ some hostname
  | _ => True

/-- The invariant of the runs of admissible events. -/
structure Inv (s : State) : Prop where
  consistent : s.registry.Consistent
  windows : Windows Phase.pending (fun _ => none) s.registry s.calls

theorem inv_init : Inv init :=
  ⟨⟨⟨by simp [init], by simp [init]⟩, by simp [init]⟩, Windows.nil⟩

theorem inv_prompted {s : State} (hs : Inv s) {i : Nat} (hi : s.calls[i]? = some .prompting)
    {hostname : Option String} (he : Admissible s (.prompted i hostname)) :
    Inv (prompted s i hostname) := by
  have hdone : Windows Phase.pending (fun _ => none) s.registry (s.calls.set i .done) :=
    hs.windows.set hi (by simp [Phase.pending])
  unfold prompted
  split
  · next h =>
    split
    · exact ⟨hs.consistent, hdone⟩
    · split
      · exact ⟨hs.consistent, hdone⟩
      · next hl =>
        exact ⟨hs.consistent, hs.windows.set hi (by rintro _ ⟨⟩; exact ⟨.inr he, .inl hl⟩)⟩
  · exact ⟨hs.consistent, hdone⟩

theorem inv_step {s : State} (hs : Inv s) {e : Event} (he : Admissible s e) : Inv (step s e) := by
  cases e with
  | connect => exact ⟨hs.consistent, hs.windows.append (by simp [Phase.pending])⟩
  | prompted i hostname =>
    simp only [step]
    split
    · next hi => exact inv_prompted hs hi he
    · exact hs
  | created i =>
    simp only [step]
    split
    · next hostname hi =>
      exact ⟨hs.consistent.add (hs.windows.lookup_eq_none hi rfl rfl) (),
        hs.windows.set_add hi rfl (by rfl) ()⟩
    · exact hs
  | started i =>
    simp only [step]
    split
    · next hi => exact ⟨hs.consistent, hs.windows.set hi (by simp [Phase.pending])⟩
    · exact hs
  | dispose n => exact ⟨hs.consistent.dispose n, hs.windows.dispose hs.consistent.toWF n⟩

/-- The states of the runs in which no two calls for one hostname are between the lookup of
    `context.vncSessions` and its `set` at once. -/
inductive Reachable : State → Prop
  | init : Reachable Vnc.init
  | step {s : State} {e : Event} : Reachable s → Admissible s e → Reachable (Vnc.step s e)

/-- In such a run, at most one VNC session per hostname is undisposed, `context.vncSessions`
    maps the hostname to it, and a disposal deletes only its own session's entry. -/
theorem Reachable.inv {s : State} (h : Reachable s) : Inv s := by
  induction h with
  | init => exact inv_init
  | step _ he ih => exact inv_step ih he

end Vnc

/-! ## `ensureSshSession` -/

namespace Ssh

/-- Where a call of `ensureSshSession` is suspended. -/
inductive Phase where
  /-- `await netUtil.isPortUsed(existingSession.forwardPort)` for the session `n` the map held
      (`commands/device_add.ts:168-169`). -/
  | checkingPort (hostname : String) (n : Nat)
  /-- `await netUtil.findUnusedPort()` (`commands/device_add.ts:183`). -/
  | findingPort (hostname : String)
  /-- `await ssh.SshSession.create(hostname, ..., port)` (`commands/device_add.ts:185-190`). -/
  | creating (hostname : String) (port : Nat)
  /-- The call has returned `port`, `undefined` as `none`. -/
  | done (port : Option Nat)
  deriving DecidableEq, Repr

/-- The hostname of a call between its lookup of `context.sshSessions` and its `set`. -/
def Phase.pending : Phase → Option String
  | .checkingPort hostname _ | .findingPort hostname | .creating hostname _ => some hostname
  | .done _ => none

/-- The session a call found in `context.sshSessions` and awaits on. -/
def Phase.found : Phase → Option Nat
  | .checkingPort _ n => some n
  | _ => none

/-- The SSH sessions, with their `forwardPort`, and `context.sshSessions`, and the calls. -/
structure State where
  registry : Registry Nat
  calls : List Phase
  deriving DecidableEq, Repr

/-- An event of a run. -/
inductive Event where
  /-- A call `ensureSshSession(context, hostname)` starts. -/
  | ensure (hostname : String)
  /-- `isPortUsed` of call `i` resolves. -/
  | portChecked (i : Nat) (used : Bool)
  /-- `findUnusedPort` of call `i` resolves. -/
  | portFound (i : Nat) (port : Nat)
  /-- `SshSession.create` of call `i` resolves, with a session or `undefined`. -/
  | created (i : Nat) (ok : Bool)
  /-- The session `n` is disposed. -/
  | dispose (n : Nat)
  deriving DecidableEq, Repr

def init : State := ⟨⟨[], []⟩, []⟩

/-- A call starts and runs to its first `await` (`commands/device_add.ts:164-169,183`). -/
def ensure (s : State) (hostname : String) : State :=
  match s.registry.map.lookup hostname with
  | some n => { s with calls := s.calls ++ [.checkingPort hostname n] }
  | none => { s with calls := s.calls ++ [.findingPort hostname] }

/-- One event (`commands/device_add.ts:169-196`). -/
def step (s : State) : Event → State
  | .ensure hostname => ensure s hostname
  | .portChecked i used =>
    match s.calls[i]? with
    | some (.checkingPort hostname n) =>
      if used then { s with calls := s.calls.set i (.done ((s.registry.sessions[n]?).map (·.data))) }
      else ⟨s.registry.dispose n, s.calls.set i (.findingPort hostname)⟩
    | _ => s
  | .portFound i port =>
    match s.calls[i]? with
    | some (.findingPort hostname) => { s with calls := s.calls.set i (.creating hostname port) }
    | _ => s
  | .created i ok =>
    match s.calls[i]? with
    | some (.creating hostname port) =>
      if ok then ⟨s.registry.add hostname port, s.calls.set i (.done (some port))⟩
      else { s with calls := s.calls.set i (.done none) }
    | _ => s
  | .dispose n => { s with registry := s.registry.dispose n }

/-- The state after the events `tr`. -/
def run (tr : List Event) : State := tr.foldl step init

/-- A step adds a session, disposes one, or leaves the registry alone. -/
theorem registry_step (s : State) (e : Event) :
    (step s e).registry = s.registry ∨ (∃ h d, (step s e).registry = s.registry.add h d) ∨
      ∃ n, (step s e).registry = s.registry.dispose n := by
  cases e with
  | ensure h => exact .inl (by simp only [step, ensure]; split <;> rfl)
  | portChecked i used =>
    simp only [step]
    split
    · split
      · exact .inl rfl
      · exact .inr (.inr ⟨_, rfl⟩)
    · exact .inl rfl
  | portFound i port => simp only [step]; split <;> exact .inl rfl
  | created i ok =>
    simp only [step]
    split
    · split
      · exact .inr (.inl ⟨_, _, rfl⟩)
      · exact .inl rfl
    · exact .inl rfl
  | dispose n => exact .inr (.inr ⟨n, rfl⟩)

/-- Over every interleaving, an entry of `context.sshSessions` is an undisposed session of its
    hostname. -/
theorem wf_run (tr : List Event) : (run tr).registry.WF := by
  suffices ∀ s : State, s.registry.WF → (tr.foldl step s).registry.WF from
    this init ⟨by simp [init], by simp [init]⟩
  induction tr with
  | nil => exact fun _ h => h
  | cons e tr ih =>
    intro s hs
    refine ih _ ?_
    rcases registry_step s e with e' | ⟨h, d, e'⟩ | ⟨n, e'⟩ <;> rw [e']
    exacts [hs, hs.add h d, hs.dispose n]

/-- An event that opens no second window for a hostname: a call for `hostname` starts while no
    call for it is between the lookup and the `set`. -/
def Admissible (s : State) : Event → Prop
  | .ensure hostname => ∀ j, pendingAt Phase.pending s.calls j ≠ some hostname
  | _ => True

/-- The invariant of the runs of admissible events. -/
structure Inv (s : State) : Prop where
  consistent : s.registry.Consistent
  windows : Windows Phase.pending Phase.found s.registry s.calls

theorem inv_init : Inv init :=
  ⟨⟨⟨by simp [init], by simp [init]⟩, by simp [init]⟩, Windows.nil⟩

theorem inv_step {s : State} (hs : Inv s) {e : Event} (he : Admissible s e) : Inv (step s e) := by
  cases e with
  | ensure h =>
    simp only [step, ensure]
    split
    · next n hl =>
      exact ⟨hs.consistent, hs.windows.append (by rintro _ ⟨⟩; exact ⟨he, .inr hl⟩)⟩
    · next hl =>
      exact ⟨hs.consistent, hs.windows.append (by rintro _ ⟨⟩; exact ⟨he, .inl hl⟩)⟩
  | portChecked i used =>
    simp only [step]
    split
    · next h n hi =>
      split
      · exact ⟨hs.consistent, hs.windows.set hi (by simp [Phase.pending])⟩
      · have hr := hs.consistent.toWF
        have hl : (s.registry.dispose n).map.lookup h = none := by
          rcases hs.windows.vacant i h (by simp [pendingAt, hi, Phase.pending]) with hl | hl
          · exact (Registry.lookup_dispose hr.nodup n h).elim (·.trans hl) id
          · exact hr.lookup_dispose_self (by simpa [foundAt, hi, Phase.found] using hl)
        exact ⟨hs.consistent.dispose n, (hs.windows.dispose hr n).set hi (by
          rintro _ ⟨⟩; exact ⟨.inl rfl, .inl hl⟩)⟩
    · exact hs
  | portFound i port =>
    simp only [step]
    split
    · next h hi =>
      exact ⟨hs.consistent, hs.windows.set hi (by
        rintro _ ⟨⟩; exact ⟨.inl rfl, .inl (hs.windows.lookup_eq_none hi rfl rfl)⟩)⟩
    · exact hs
  | created i ok =>
    simp only [step]
    split
    · next h port hi =>
      split
      · exact ⟨hs.consistent.add (hs.windows.lookup_eq_none hi rfl rfl) port,
          hs.windows.set_add hi rfl (by rfl) port⟩
      · exact ⟨hs.consistent, hs.windows.set hi (by simp [Phase.pending])⟩
    · exact hs
  | dispose n => exact ⟨hs.consistent.dispose n, hs.windows.dispose hs.consistent.toWF n⟩

/-- The states of the runs in which no two calls for one hostname are between the lookup of
    `context.sshSessions` and its `set` at once. -/
inductive Reachable : State → Prop
  | init : Reachable Ssh.init
  | step {s : State} {e : Event} : Reachable s → Admissible s e → Reachable (Ssh.step s e)

/-- In such a run, at most one SSH session per hostname is undisposed, `context.sshSessions`
    maps the hostname to it, and a disposal deletes only its own session's entry. -/
theorem Reachable.inv {s : State} (h : Reachable s) : Inv s := by
  induction h with
  | init => exact inv_init
  | step _ he ih => exact inv_step ih he

end Ssh

/-- Two calls of `connectToDeviceForScreen` for `dut1`, and two of `ensureSshSession`, each past
    its lookup before the other `set`s its session: each pair leaves two undisposed sessions for
    `dut1` with the map holding the second, and disposing the first deletes the second's entry,
    leaving it undisposed with no entry. -/
theorem two_sessions_for_one_host :
    let vnc : List Vnc.Event :=
      [.connect, .connect, .prompted 0 (some "dut1"), .prompted 1 (some "dut1"), .created 0,
        .created 1]
    let ssh : List Ssh.Event :=
      [.ensure "dut1", .ensure "dut1", .portFound 0 2222, .portFound 1 2223, .created 0 true,
        .created 1 true]
    (Vnc.run vnc).registry = ⟨[⟨"dut1", (), false⟩, ⟨"dut1", (), false⟩], [("dut1", 1)]⟩ ∧
      (Vnc.run (vnc ++ [.dispose 0])).registry =
        ⟨[⟨"dut1", (), true⟩, ⟨"dut1", (), false⟩], []⟩ ∧
      (Ssh.run ssh).registry = ⟨[⟨"dut1", 2222, false⟩, ⟨"dut1", 2223, false⟩], [("dut1", 1)]⟩ ∧
      (Ssh.run (ssh ++ [.dispose 0])).registry =
        ⟨[⟨"dut1", 2222, true⟩, ⟨"dut1", 2223, false⟩], []⟩ := by
  decide

/-- Over every interleaving of the calls of `connectToDeviceForScreen`, and of those of
    `ensureSshSession`, with the disposal of sessions, an entry of `context.vncSessions` or
    `context.sshSessions` is an undisposed session of its hostname; in the runs in which no two
    calls for one hostname are between the lookup and the `set` at once, there is one session
    per hostname. -/
theorem sessions_one_per_host :
    (∀ tr, (Vnc.run tr).registry.WF) ∧ (∀ tr, (Ssh.run tr).registry.WF) ∧
      (∀ s, Vnc.Reachable s → s.registry.OnePerHost) ∧
      ∀ s, Ssh.Reachable s → s.registry.OnePerHost :=
  ⟨Vnc.wf_run, Ssh.wf_run, fun _ h => h.inv.consistent.onePerHost,
    fun _ h => h.inv.consistent.onePerHost⟩

end CrosIde.DeviceManagement
