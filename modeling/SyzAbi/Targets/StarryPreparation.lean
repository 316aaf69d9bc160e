import SyzAbi.Agent.EventDecoding
import SyzAbi.Library.Interleaving
import SyzAbi.Library.JsonDumps

/-!
# Preparing the StarryOS target

`prepare_target` (`targets/tgoskits_starryos/api.py`) opens the build-info file for reading and
appending, locks it, and reads it. When the file does not name the pinned revision, the prepare
commands run, the file is truncated, and the new build info is written to the buffer of the file
object. Then the lock is released. The buffer reaches the file only when the file object is closed,
behind the release.

So a process can hold the lock while the build info of the one before it is still in a buffer. When
it reads the file then, it finds nothing and prepares the target again. Every other run is right
(`forall_prepared_iff_settled`).
-/

set_option autoImplicit false
set_option relaxedAutoImplicit false

namespace SyzAbi.Targets

open Analyzer Orchestrator Agent Library Library.Json Library.Interleaving

/-! ### The build info -/

/-- The file parses as empty or as one JSON object. -/
def ParsesAsInfo (content : PyStr) : Prop :=
  content = [] ∨ ∃ members, parse content = some (.obj members)

/-- Processes that prepare one pinned revision, and the build-info file that they find. -/
structure Deployment (ι : Type) where
  revision : String
  arch : ι → String
  diskImagePath : ι → String
  workspace : ι → String
  content : PyStr
  content_parses : ParsesAsInfo content

variable {ι : Type}

/-- The members of `info`. -/
def Deployment.info (deployment : Deployment ι) (i : ι) : List (String × String) :=
  [("target", "tgoskits_starryos"), ("revision", deployment.revision),
    ("arch", deployment.arch i), ("disk_image_path", deployment.diskImagePath i),
    ("workspace", deployment.workspace i)]

/-- What `json.dump` writes for `info`. -/
def Deployment.infoText (deployment : Deployment ι) (i : ι) : PyStr :=
  spacedObject ((deployment.info i).map fun entry ↦
    spacedMember (PyStr.ofString entry.1) (quoteAscii (PyStr.ofString entry.2)))

/-- `existing.get("revision") == revision`. -/
def hasRevision (revision : String) (members : List (Text × Value)) : Bool :=
  match members.lookup (PyStr.ofString "revision") with
  | some (.str text) => text = PyStr.ofString revision
  | _ => false

/-! ### Processes -/

/-- Where a process is in `prepare_target`. -/
inductive PreparePhase
  | started
  | locked
  | preparing
  | prepared
  | truncated
  | dumped
  /-- In `finally`, with nothing written: the target was prepared before, or an exception is on its
  way. -/
  | leaving
  | unlocked
  | closed
  deriving DecidableEq

/-- A process: where it is, the buffer of its file object, and what it read. It remembers which
processes had prepared the target when it took the lock. -/
structure Preparer (ι : Type) where
  phase : PreparePhase
  buffer : PyStr
  loaded : Option PyStr
  earlier : List ι

/-- The build-info file and its lock, and the processes that ran all prepare commands and released
the lock. -/
structure BuildInfoFile (ι : Type) where
  holder : Option ι
  content : PyStr
  released : List ι

/-- What a process does next. The prepare commands can fail. -/
inductive PrepareMove
  | flock
  | read
  | prepare (succeeds : Bool)
  | truncate
  | dump
  | unlock
  | close

/-- What a process does with the content of the file. -/
def decidePhase (revision : String) (content : PyStr) : PreparePhase :=
  if content.isEmpty then .preparing
  else
    match jsonLoads content with
    | .ok (.obj members) => if hasRevision revision members then .leaving else .preparing
    | _ => .leaving

/-- One move of a process in `prepare_target`. A move that is not its next one does nothing. -/
def prepareStep (deployment : Deployment ι) (i : ι) :
    PrepareMove → Preparer ι → BuildInfoFile ι → Preparer ι × BuildInfoFile ι
  | .flock, ⟨.started, buffer, loaded, earlier⟩, file =>
    if file.holder.isNone then
      (⟨.locked, buffer, loaded, file.released⟩, { file with holder := some i })
    else (⟨.started, buffer, loaded, earlier⟩, file)
  | .read, ⟨.locked, buffer, _, earlier⟩, file =>
    (⟨decidePhase deployment.revision file.content, buffer, some file.content, earlier⟩, file)
  | .prepare succeeds, ⟨.preparing, buffer, loaded, earlier⟩, file =>
    (⟨if succeeds then .prepared else .leaving, buffer, loaded, earlier⟩, file)
  | .truncate, ⟨.prepared, buffer, loaded, earlier⟩, file =>
    (⟨.truncated, buffer, loaded, earlier⟩, { file with content := [] })
  | .dump, ⟨.truncated, buffer, loaded, earlier⟩, file =>
    (⟨.dumped, buffer ++ deployment.infoText i, loaded, earlier⟩, file)
  | .unlock, ⟨.dumped, buffer, loaded, earlier⟩, file =>
    (⟨.unlocked, buffer, loaded, earlier⟩,
      { file with holder := none, released := file.released ++ [i] })
  | .unlock, ⟨.leaving, buffer, loaded, earlier⟩, file =>
    (⟨.unlocked, buffer, loaded, earlier⟩, { file with holder := none })
  | .close, ⟨.unlocked, buffer, loaded, earlier⟩, file =>
    (⟨.closed, [], loaded, earlier⟩, { file with content := file.content ++ buffer })
  | _, process, file => (process, file)

/-- The processes before they open the file. -/
def Deployment.start (deployment : Deployment ι) :
    Config ι (Preparer ι) (BuildInfoFile ι) where
  locals := fun _ ↦ ⟨.started, [], none, []⟩
  shared := ⟨none, deployment.content, []⟩

/-- The phases in which the prepare commands run or have run. -/
def PreparePhase.busy : PreparePhase → Bool
  | .preparing | .prepared | .truncated | .dumped => true
  | _ => false

/-- The phases in which a process holds the lock. -/
def PreparePhase.holds : PreparePhase → Bool
  | .locked | .preparing | .prepared | .truncated | .dumped | .leaving => true
  | _ => false

/-- The target is prepared once: a process that took the lock when another had prepared the target
reads the build info of that process and does not run the prepare commands. The build-info file
parses. -/
def PreparedOnce (deployment : Deployment ι) (config : Config ι (Preparer ι) (BuildInfoFile ι)) :
    Prop :=
  (∀ j, ∀ i ∈ (config.locals j).earlier, (config.locals j).phase.busy = false ∧
    ∀ text ∈ (config.locals j).loaded, text = deployment.infoText i) ∧
  ParsesAsInfo config.shared.content

/-- No process reads the file while the build info of one that released the lock is in a buffer. -/
def Settled (config : Config ι (Preparer ι) (BuildInfoFile ι)) (move : ι × PrepareMove) : Prop :=
  match move.2, (config.locals move.1).phase with
  | .read, .locked => ∀ i, (config.locals i).phase = .unlocked → (config.locals i).buffer = []
  | _, _ => True

/-! ### What the build info parses to -/

theorem Deployment.reads_infoText (deployment : Deployment ι) (i : ι) :
    Json.Reads (deployment.infoText i) (.obj (setMembers [] ((deployment.info i).map fun entry ↦
      (PyStr.ofString entry.1, .str (PyStr.ofString entry.2))))) := by
  refine Json.Reads.spacedObject ?_ (by simp [Deployment.info])
  rw [List.forall₂_map_left_iff, List.forall₂_map_right_iff, List.forall₂_same]
  intro entry hentry
  have hkeys : ∀ key ∈ (deployment.info i).map Prod.fst, Plain (PyStr.ofString key) := by
    intro key hkey
    apply plain_of_identifier
    simp only [Deployment.info, List.map_cons, List.map_nil, List.mem_cons, List.not_mem_nil,
      or_false] at hkey
    rcases hkey with rfl | rfl | rfl | rfl | rfl <;> decide
  refine ⟨hkeys _ (List.mem_map_of_mem hentry), _, rfl, Json.Reads.quoteAscii ?_⟩
  intro c hc
  obtain ⟨d, _, rfl⟩ := List.mem_map.mp hc
  exact d.valid

theorem Deployment.infoText_ne_nil (deployment : Deployment ι) (i : ι) :
    deployment.infoText i ≠ [] := by
  simp [Deployment.infoText, spacedObject]

theorem Deployment.parsesAsInfo_infoText (deployment : Deployment ι) (i : ι) :
    ParsesAsInfo (deployment.infoText i) := by
  have hparse := (deployment.reads_infoText i).parse_eq
    (show ∀ c ∈ ([] : Text), isSpace c = true by simp)
  rw [List.append_nil] at hparse
  exact Or.inr ⟨_, hparse⟩

/-- A process that finds the build info of another one leaves. -/
theorem Deployment.decidePhase_infoText (deployment : Deployment ι) (i : ι) :
    decidePhase deployment.revision (deployment.infoText i) = .leaving := by
  have hrevision : hasRevision deployment.revision (setMembers [] ((deployment.info i).map
      fun entry ↦ (PyStr.ofString entry.1, Value.str (PyStr.ofString entry.2)))) = true := by
    have hkeys : (PyStr.ofString "revision" == PyStr.ofString "workspace") = false ∧
        (PyStr.ofString "revision" == PyStr.ofString "disk_image_path") = false ∧
        (PyStr.ofString "revision" == PyStr.ofString "arch") = false := by
      decide
    have hlookup := get?_setMembers [] ((deployment.info i).map
      fun entry ↦ (PyStr.ofString entry.1, Value.str (PyStr.ofString entry.2)))
      (PyStr.ofString "revision")
    rw [Value.get?] at hlookup
    rw [hasRevision, hlookup]
    simp [Deployment.info, List.lookup_cons, hkeys]
  rw [decidePhase, if_neg (by simpa using deployment.infoText_ne_nil i),
    jsonLoads_of_reads (deployment.reads_infoText i)]
  dsimp only
  rw [if_pos hrevision]

/-! ### The invariant -/

/-- What holds of a process and the build-info file. -/
structure Preparer.Holds (deployment : Deployment ι) (i : ι) (process : Preparer ι)
    (file : BuildInfoFile ι) : Prop where
  lock : process.phase.holds = true ↔ file.holder = some i
  unread : process.phase = .started ∨ process.phase = .locked → process.loaded = none
  earlier : process.phase = .locked → process.earlier = file.released
  loaded : ∀ j ∈ process.earlier, ∀ text ∈ process.loaded, text = deployment.infoText j
  busy : process.phase.busy = true → file.released = [] ∧ process.earlier = []
  emptied : process.phase = .truncated ∨ process.phase = .dumped → file.content = []
  buffered : process.buffer ≠ [] → process.buffer = deployment.infoText i ∧
    (process.phase = .dumped ∨ process.phase = .unlocked ∧ i ∈ file.released)
  dumped : process.phase = .dumped → process.buffer ≠ []
  released : i ∈ file.released → file.released = [i] ∧
    (process.phase = .unlocked ∧ file.content = [] ∧ process.buffer ≠ [] ∨
      process.phase = .closed ∧ file.content = deployment.infoText i)

theorem PreparePhase.holds_of_busy {phase : PreparePhase} (hbusy : phase.busy = true) :
    phase.holds = true := by
  cases phase
  all_goals first | rfl | cases hbusy

theorem decidePhase_cases (revision : String) (content : PyStr) :
    decidePhase revision content = .preparing ∨ decidePhase revision content = .leaving := by
  rw [decidePhase]
  split_ifs
  · exact Or.inl rfl
  · split
    · split_ifs
      · exact Or.inr rfl
      · exact Or.inl rfl
    · exact Or.inr rfl

/-- A process that has not released a build info is not among those that have. -/
theorem Preparer.Holds.not_released {deployment : Deployment ι} {i : ι} {process : Preparer ι}
    {file : BuildInfoFile ι} (hholds : process.Holds deployment i file)
    (hphase : process.phase ≠ .unlocked ∧ process.phase ≠ .closed) : i ∉ file.released := by
  intro hreleased
  rcases (hholds.released hreleased).2 with h | h
  · exact hphase.1 h.1
  · exact hphase.2 h.1

theorem Preparer.Holds.buffer_eq_nil {deployment : Deployment ι} {i : ι} {process : Preparer ι}
    {file : BuildInfoFile ι} (hholds : process.Holds deployment i file)
    (hphase : process.phase ≠ .unlocked ∧ process.phase ≠ .dumped) : process.buffer = [] := by
  by_contra hne
  rcases (hholds.buffered hne).2 with h | h
  · exact hphase.2 h
  · exact hphase.1 h.1

/-- A process with nothing in its buffer keeps its assertion in a move that writes nothing to it and
releases no build info. -/
theorem Preparer.Holds.unbuffered {deployment : Deployment ι} {i : ι} {process : Preparer ι}
    {file after : BuildInfoFile ι} {phase : PreparePhase} {loaded : Option PyStr} {earlier : List ι}
    (hholds : process.Holds deployment i file)
    (hnow : process.phase ∉ [.dumped, .unlocked, .closed]) (hnext : phase ∉ [.started, .dumped])
    (hreleased : after.released = file.released)
    (hlock : phase.holds = true ↔ after.holder = some i)
    (hlocked : phase = .locked → loaded = none ∧ earlier = file.released)
    (hloaded : ∀ j ∈ earlier, ∀ text ∈ loaded, text = deployment.infoText j)
    (hbusy : phase.busy = true → file.released = [] ∧ earlier = [])
    (hemptied : phase = .truncated → after.content = []) :
    Preparer.Holds deployment i ⟨phase, process.buffer, loaded, earlier⟩ after := by
  simp only [List.mem_cons, List.not_mem_nil, or_false, not_or] at hnow hnext
  have hbuffer := hholds.buffer_eq_nil ⟨hnow.2.1, hnow.1⟩
  have hnot := hholds.not_released ⟨hnow.2.1, hnow.2.2⟩
  exact {
    lock := hlock
    unread := fun h ↦ (hlocked (h.resolve_left hnext.1)).1
    earlier := fun h ↦ (hlocked h).2.trans hreleased.symm
    loaded := hloaded
    busy := fun h ↦ ⟨hreleased.trans (hbusy h).1, (hbusy h).2⟩
    emptied := fun h ↦ hemptied (h.resolve_right hnext.2)
    buffered := fun h ↦ absurd hbuffer h
    dumped := fun h ↦ absurd h hnext.2
    released := fun h ↦ absurd (hreleased ▸ h) hnot }

section Moves

variable {deployment : Deployment ι} {i : ι} {buffer : PyStr} {loaded : Option PyStr}
  {earlier : List ι} {file : BuildInfoFile ι}

/-- A process that reads finds what was released. -/
theorem Preparer.Holds.read
    (hholds : Preparer.Holds deployment i ⟨.locked, buffer, loaded, earlier⟩ file)
    (hread : ∀ j ∈ file.released, file.content = deployment.infoText j) :
    Preparer.Holds deployment i
      ⟨decidePhase deployment.revision file.content, buffer, some file.content, earlier⟩ file := by
  have hearlier : earlier = file.released := hholds.earlier rfl
  have hbusy : (decidePhase deployment.revision file.content).busy = true →
      file.released = [] := by
    intro hbusy
    rw [List.eq_nil_iff_forall_not_mem]
    intro j hj
    rw [hread j hj, deployment.decidePhase_infoText] at hbusy
    cases hbusy
  have hphases := decidePhase_cases deployment.revision file.content
  generalize decidePhase deployment.revision file.content = phase at hbusy hphases ⊢
  refine hholds.unbuffered (by simp) ?_ rfl (iff_of_true ?_ (hholds.lock.mp rfl)) ?_ ?_
    (fun h ↦ ⟨hbusy h, hearlier.trans (hbusy h)⟩) ?_
  · rcases hphases with rfl | rfl <;> decide
  · rcases hphases with rfl | rfl <;> rfl
  · rcases hphases with rfl | rfl <;> simp
  · intro j hj text htext
    obtain rfl := Option.some.inj htext
    exact hread j (hearlier ▸ hj)
  · rcases hphases with rfl | rfl <;> simp

/-- The build info is written to an empty buffer. -/
theorem Preparer.Holds.dump
    (hholds : Preparer.Holds deployment i ⟨.truncated, buffer, loaded, earlier⟩ file) :
    Preparer.Holds deployment i ⟨.dumped, buffer ++ deployment.infoText i, loaded, earlier⟩
      file := by
  have hbuffer : buffer = [] := hholds.buffer_eq_nil (by simp)
  have hreleased := hholds.not_released (by simp)
  exact { hholds with
    lock := iff_of_true rfl (hholds.lock.mp rfl)
    unread := by simp
    earlier := by simp
    busy := fun _ ↦ hholds.busy rfl
    emptied := fun _ ↦ hholds.emptied (Or.inl rfl)
    buffered := fun _ ↦ ⟨by rw [hbuffer, List.nil_append], Or.inl rfl⟩
    dumped := by simp [deployment.infoText_ne_nil i]
    released := fun h ↦ absurd h hreleased }

/-- The lock is released with the build info in the buffer. -/
theorem Preparer.Holds.unlock
    (hholds : Preparer.Holds deployment i ⟨.dumped, buffer, loaded, earlier⟩ file) :
    Preparer.Holds deployment i ⟨.unlocked, buffer, loaded, earlier⟩
      { file with holder := none, released := file.released ++ [i] } := by
  have hbuffer : buffer ≠ [] := hholds.dumped rfl
  have hnone : file.released = [] := (hholds.busy rfl).1
  exact { hholds with
    lock := iff_of_false (by simp [PreparePhase.holds]) (by simp)
    unread := by simp
    earlier := by simp
    busy := by simp [PreparePhase.busy]
    emptied := by simp
    buffered := fun _ ↦ ⟨(hholds.buffered hbuffer).1, Or.inr ⟨rfl, by simp⟩⟩
    dumped := by simp
    released := fun _ ↦
      ⟨by simp [hnone], Or.inl ⟨rfl, hholds.emptied (Or.inr rfl), hbuffer⟩⟩ }

/-- The buffer of a process that released its build info goes to an empty file. -/
theorem Preparer.Holds.close
    (hholds : Preparer.Holds deployment i ⟨.unlocked, buffer, loaded, earlier⟩ file) :
    Preparer.Holds deployment i ⟨.closed, [], loaded, earlier⟩
      { file with content := file.content ++ buffer } := by
  have hlock : file.holder ≠ some i := fun h ↦ by cases hholds.lock.mpr h
  exact { hholds with
    lock := iff_of_false (by simp [PreparePhase.holds]) hlock
    unread := by simp
    earlier := by simp
    busy := by simp [PreparePhase.busy]
    emptied := by simp
    buffered := by simp
    dumped := by simp
    released := by
      intro hreleased
      obtain ⟨honly, hstate⟩ := hholds.released hreleased
      rcases hstate with ⟨_, hempty, hbuffer⟩ | ⟨hclosed, _⟩
      · refine ⟨honly, Or.inr ⟨rfl, ?_⟩⟩
        show file.content ++ buffer = _
        rw [hempty, List.nil_append]
        exact (hholds.buffered hbuffer).1
      · cases hclosed }

end Moves

/-- A move restores the assertion of its process, when a process that reads finds what was
released. -/
theorem Preparer.Holds.step {deployment : Deployment ι} {i : ι} {move : PrepareMove}
    {process : Preparer ι} {file : BuildInfoFile ι} (hholds : process.Holds deployment i file)
    (hread : ∀ j ∈ file.released, process.phase = .locked → move = .read →
      file.content = deployment.infoText j) :
    (prepareStep deployment i move process file).1.Holds deployment i
      (prepareStep deployment i move process file).2 := by
  fun_cases prepareStep deployment i move process file with
  | case1 buffer loaded earlier file hfree =>
    have hloaded : loaded = none := hholds.unread (Or.inl rfl)
    refine hholds.unbuffered (by simp) (by decide) rfl (iff_of_true rfl rfl)
      (fun _ ↦ ⟨hloaded, rfl⟩) ?_ (fun h ↦ Bool.noConfusion h) nofun
    rw [hloaded]
    exact fun _ _ _ htext ↦ nomatch htext
  | case2 buffer loaded earlier file hheld => exact hholds
  | case3 buffer loaded earlier file => exact hholds.read fun j hj ↦ hread j hj rfl rfl
  | case4 succeeds buffer loaded earlier file =>
    refine hholds.unbuffered (by simp) ?_ rfl (iff_of_true ?_ (hholds.lock.mp rfl)) ?_
      hholds.loaded (fun _ ↦ hholds.busy rfl) ?_
    · cases succeeds <;> decide
    · cases succeeds <;> rfl
    · cases succeeds <;> simp
    · cases succeeds <;> simp
  | case5 buffer loaded earlier file =>
    exact hholds.unbuffered (by simp) (by decide) rfl (iff_of_true rfl (hholds.lock.mp rfl))
      nofun hholds.loaded (fun _ ↦ hholds.busy rfl) fun _ ↦ rfl
  | case6 buffer loaded earlier file => exact hholds.dump
  | case7 buffer loaded earlier file => exact hholds.unlock
  | case8 buffer loaded earlier file =>
    exact hholds.unbuffered (by simp) (by decide) rfl (iff_of_false nofun nofun) nofun
      hholds.loaded (fun h ↦ Bool.noConfusion h) nofun
  | case9 buffer loaded earlier file => exact hholds.close
  | case10 => exact hholds

/-- A process whose assertion fixes the file rules out that another one changes it. -/
theorem Preparer.Holds.other {deployment : Deployment ι} {i j : ι} (hne : j ≠ i)
    {move : PrepareMove} {process other : Preparer ι} {file : BuildInfoFile ι}
    (hholds : process.Holds deployment i file) (hother : other.Holds deployment j file) :
    other.Holds deployment j (prepareStep deployment i move process file).2 := by
  have hfree : process.phase.holds = true → other.phase.holds = false := by
    intro hheld
    rw [Bool.eq_false_iff]
    intro h
    exact hne (Option.some.inj ((hother.lock.mp h).symm.trans (hholds.lock.mp hheld)))
  fun_cases prepareStep deployment i move process file with
  | case1 buffer loaded earlier file hnone =>
    have hheld : other.phase.holds ≠ true := by
      intro h
      rw [hother.lock.mp h] at hnone
      cases hnone
    exact { hother with lock := iff_of_false hheld fun h ↦ hne (Option.some.inj h).symm }
  | case2 buffer loaded earlier file hheld => exact hother
  | case3 buffer loaded earlier file => exact hother
  | case4 succeeds buffer loaded earlier file => exact hother
  | case5 buffer loaded earlier file =>
    have hnone : file.released = [] := (hholds.busy rfl).1
    exact { hother with
      emptied := fun _ ↦ rfl
      released := fun h ↦ absurd (hnone ▸ h) List.not_mem_nil }
  | case6 buffer loaded earlier file => exact hother
  | case7 buffer loaded earlier file =>
    have hnone : file.released = [] := (hholds.busy rfl).1
    have hidle := hfree rfl
    exact { hother with
      lock := iff_of_false (by simp [hidle]) (by simp)
      earlier := by
        intro h
        rw [h] at hidle
        cases hidle
      busy := by
        intro h
        rw [PreparePhase.holds_of_busy h] at hidle
        cases hidle
      buffered := by
        intro hbuffer
        obtain ⟨_, hdumped | ⟨_, hreleased⟩⟩ := hother.buffered hbuffer
        · rw [hdumped] at hidle
          cases hidle
        · exact absurd (hnone ▸ hreleased) List.not_mem_nil
      released := by
        intro hreleased
        rw [hnone, List.nil_append] at hreleased
        exact absurd (List.mem_singleton.mp hreleased) hne }
  | case8 buffer loaded earlier file =>
    have hidle := hfree rfl
    exact { hother with lock := iff_of_false (by simp [hidle]) (by simp) }
  | case9 buffer loaded earlier file =>
    by_cases hbuffer : buffer = []
    · rw [hbuffer, List.append_nil]
      exact hother
    · obtain ⟨_, hdumped | ⟨_, hreleased⟩⟩ := hholds.buffered hbuffer
      · cases hdumped
      · obtain ⟨honly, _⟩ := hholds.released hreleased
        exact { hother with
          emptied := by
            intro h
            have hbusy : other.phase.busy = true := by
              rcases h with h | h
              · rw [h]
                rfl
              · rw [h]
                rfl
            rw [(hother.busy hbusy).1] at honly
            cases honly
          released := by
            intro h
            rw [honly] at h
            exact absurd (List.mem_singleton.mp h) hne }
  | case10 => exact hother

/-! ### Runs -/

/-- The invariant of settled runs. -/
structure Ordered (deployment : Deployment ι) (config : Config ι (Preparer ι) (BuildInfoFile ι)) :
    Prop where
  processes : ∀ i, (config.locals i).Holds deployment i config.shared
  parses : ParsesAsInfo config.shared.content

theorem ordered_start (deployment : Deployment ι) : Ordered deployment deployment.start where
  processes := fun i ↦ {
    lock := iff_of_false (by simp [Deployment.start, PreparePhase.holds]) (by
      simp [Deployment.start])
    unread := fun _ ↦ rfl
    earlier := fun _ ↦ rfl
    loaded := by simp [Deployment.start]
    busy := fun _ ↦ ⟨rfl, rfl⟩
    emptied := by simp [Deployment.start]
    buffered := by simp [Deployment.start]
    dumped := by simp [Deployment.start]
    released := by simp [Deployment.start] }
  parses := deployment.content_parses

theorem Ordered.preparedOnce {deployment : Deployment ι}
    {config : Config ι (Preparer ι) (BuildInfoFile ι)} (hordered : Ordered deployment config) :
    PreparedOnce deployment config := by
  refine ⟨fun j i hi ↦ ⟨?_, fun text ↦ (hordered.processes j).loaded i hi text⟩, hordered.parses⟩
  rw [Bool.eq_false_iff]
  intro hbusy
  rw [((hordered.processes j).busy hbusy).2] at hi
  cases hi

/-- In a settled move a process that reads finds the build info that was released. -/
theorem Ordered.content_eq {deployment : Deployment ι}
    {config : Config ι (Preparer ι) (BuildInfoFile ι)} (hordered : Ordered deployment config)
    {move : ι × PrepareMove} (hsettled : Settled config move) :
    ∀ i ∈ config.shared.released, (config.locals move.1).phase = .locked → move.2 = .read →
      config.shared.content = deployment.infoText i := by
  intro i hi hphase hmove
  rw [Settled, hphase, hmove] at hsettled
  rcases ((hordered.processes i).released hi).2 with ⟨hunlocked, _, hbuffer⟩ | ⟨_, hcontent⟩
  · exact absurd (hsettled i hunlocked) hbuffer
  · exact hcontent

/-- Every move leaves a file that parses. -/
theorem Preparer.Holds.parses {deployment : Deployment ι} {i : ι} {move : PrepareMove}
    {process : Preparer ι} {file : BuildInfoFile ι} (hholds : process.Holds deployment i file)
    (hparses : ParsesAsInfo file.content) :
    ParsesAsInfo (prepareStep deployment i move process file).2.content := by
  fun_cases prepareStep deployment i move process file with
  | case5 buffer loaded earlier file => exact Or.inl rfl
  | case9 buffer loaded earlier file =>
    by_cases hbuffer : buffer = []
    · rw [hbuffer, List.append_nil]
      exact hparses
    · obtain ⟨hinfo, hdumped | ⟨_, hreleased⟩⟩ := hholds.buffered hbuffer
      · cases hdumped
      · rcases (hholds.released hreleased).2 with ⟨_, hempty, _⟩ | ⟨hclosed, _⟩
        · show ParsesAsInfo (file.content ++ buffer)
          rw [hempty, List.nil_append, show buffer = _ from hinfo]
          exact deployment.parsesAsInfo_infoText i
        · cases hclosed
  | _ => exact hparses

variable [DecidableEq ι]

theorem Ordered.step {deployment : Deployment ι}
    {config : Config ι (Preparer ι) (BuildInfoFile ι)} {move : ι × PrepareMove}
    (hordered : Ordered deployment config) (hsettled : Settled config move) :
    Ordered deployment (step (prepareStep deployment) config move) where
  processes := forall_local_step (P := Preparer.Holds deployment)
    ((hordered.processes move.1).step (hordered.content_eq hsettled))
    fun j hj ↦ (hordered.processes move.1).other hj (hordered.processes j)
  parses := (hordered.processes move.1).parses hordered.parses

/-- A process that reads while a build info is in a buffer finds an empty file. -/
theorem settled_of_preparedOnce {deployment : Deployment ι}
    {config : Config ι (Preparer ι) (BuildInfoFile ι)} {move : ι × PrepareMove}
    (hordered : Ordered deployment config)
    (hprepared : PreparedOnce deployment (step (prepareStep deployment) config move)) :
    Settled config move := by
  obtain ⟨j, action⟩ := move
  rw [Settled]
  split
  · next hread hlocked =>
    obtain rfl : action = .read := hread
    intro i hunlocked
    by_contra hbuffer
    obtain ⟨_, hdumped | ⟨_, hreleased⟩⟩ := (hordered.processes i).buffered hbuffer
    · rw [hunlocked] at hdumped
      cases hdumped
    have hempty : config.shared.content = [] := by
      rcases ((hordered.processes i).released hreleased).2 with ⟨_, hempty, _⟩ | ⟨hclosed, _⟩
      · exact hempty
      · rw [hunlocked] at hclosed
        cases hclosed
    have hearlier := (hordered.processes j).earlier hlocked
    -- The process that reads remembers the release, and what it loads is empty.
    have hstep := hprepared.1 j
    rw [step_locals_self] at hstep
    generalize config.locals j = process at hlocked hearlier hstep
    obtain ⟨phase, buffer, loaded, earlier⟩ := process
    obtain rfl : phase = .locked := hlocked
    obtain rfl : earlier = config.shared.released := hearlier
    have hloaded := (hstep i hreleased).2 config.shared.content rfl
    exact deployment.infoText_ne_nil i (hloaded.symm.trans hempty)
  · trivial

/-- In a run of any processes the target is prepared once and the build-info file parses exactly
when no process reads the file while the build info of one that released the lock is in a buffer. -/
theorem forall_prepared_iff_settled (deployment : Deployment ι) (moves : List (ι × PrepareMove)) :
    (∀ config ∈ states (step (prepareStep deployment)) deployment.start moves,
        PreparedOnce deployment config) ↔
      Along (step (prepareStep deployment)) Settled deployment.start moves :=
  forall_states_iff_along (fun config (hordered : Ordered deployment config) ↦
    hordered.preparedOnce) (fun _ _ ↦ Ordered.step)
    (fun _ _ ↦ settled_of_preparedOnce) (ordered_start deployment) moves

/-- Two processes that prepare a revision for an empty build-info file. -/
def twoPreparers : Deployment ℕ where
  revision := "0123456789abcdef"
  arch := fun _ ↦ "x86_64"
  diskImagePath := fun _ ↦ "disk.img"
  workspace := fun _ ↦ "tgoskits"
  content := []
  content_parses := Or.inl rfl

/-- The second process takes the lock before the first one closes the file. -/
theorem not_forall_prepared : ¬∀ (deployment : Deployment ℕ) (moves : List (ℕ × PrepareMove)),
    ∀ config ∈ states (step (prepareStep deployment)) deployment.start moves,
      PreparedOnce deployment config := by
  intro hprepared
  have hlast := hprepared twoPreparers [(0, .flock), (0, .read), (0, .prepare true),
    (0, .truncate), (0, .dump), (0, .unlock), (1, .flock), (1, .read)] _
    (List.getLast_mem (by simp [states]))
  obtain ⟨hbusy, _⟩ := hlast.1 1 0 (by decide)
  cases hbusy

end SyzAbi.Targets
