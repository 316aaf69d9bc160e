import SyzAbi.Agent.EscapedFrames
import SyzAbi.Library.MergedStreams
import SyzAbi.Orchestrator.EventsFile

/-!
# Events recovered from several streams

When the events file has no events, `persisted_trace_events` (`orchestrator/vm_runner.py`) takes
those of the frames in the standard output, the standard error and the console, one stream after
another, without those it has seen. So the events come back in their order exactly when no stream
has an event before a later stream has the earlier ones (`recovers_iff`).
-/

set_option autoImplicit false
set_option relaxedAutoImplicit false

namespace SyzAbi.Orchestrator

open Library Library.Json Library.FirstUse Agent

/-! ### Streams -/

/-- A text whose frames stand at the head of their lines, or behind colours. -/
structure FramedStream where
  text : PyStr
  lines : List ConsoleLine
  splitLines_eq : splitLines text = lines.map ConsoleLine.text
  endsWithColour : ∀ line ∈ lines, line.EndsWithColour

def FramedStream.events (stream : FramedStream) : List Value :=
  stream.lines.filterMap ConsoleLine.event

/-- Events whose indices increase. -/
structure IndexedEvents where
  events : List Value
  index : Value → ℤ
  get_eq : ∀ event ∈ events, event.get? (PyStr.ofString "event_index") = some (.int (index event))
  increasing : events.Pairwise fun a b ↦ index a < index b

/-- The streams in which events arrive, each in its order, and each event in one of them at least.
-/
structure Recovery extends IndexedEvents where
  stdout : FramedStream
  stderr : FramedStream
  console : Option FramedStream
  sublist : ∀ stream ∈ [stdout, stderr] ++ console.toList, stream.events.Sublist events
  covered : ∀ event ∈ events, ∃ stream ∈ [stdout, stderr] ++ console.toList,
    event ∈ stream.events

def Recovery.streams (recovery : Recovery) : List FramedStream :=
  [recovery.stdout, recovery.stderr] ++ recovery.console.toList

/-- `persisted_trace_events`, with the events file that it leaves when there is none. -/
def recoverTraceEvents (transport : String) (eventsFile : Option PyStr)
    (stdoutText stderrText : PyStr) (console : Option PyStr) : Except PyError (List Value) := do
  let events ← persistedTraceEvents transport eventsFile stdoutText stderrText console
  if !events.isEmpty && eventsFile.isNone then
    let _ ← writeEventsFile events
    return events
  else return events

/-- The events of a recovery when the events file has none. -/
def Recovery.recover (recovery : Recovery) (eventsFile : Option PyStr) :
    Except PyError (List Value) :=
  recoverTraceEvents "stdout" eventsFile recovery.stdout.text recovery.stderr.text
    (recovery.console.map FramedStream.text)

/-- There is no events file, or it holds no events, or none that load. -/
def HasNoEvents (eventsFile : Option PyStr) : Prop :=
  ∀ text ∈ eventsFile, ∀ events, parseEvents text = .ok events → events = []

/-- All events come back in order, and `validate_raw_trace` accepts them. -/
structure Recovery.Recovers (recovery : Recovery) (eventsFile : Option PyStr) : Prop where
  recover_eq : recovery.recover eventsFile = .ok recovery.events
  accepted : validateStoredEvents (-1) recovery.events = .ok ()

/-- Whenever one of the first streams has an event, they have the earlier ones too. No index is
negative, and a file of the events can be written if there is none. -/
structure Recovery.ArrivesInOrder (recovery : Recovery) (eventsFile : Option PyStr) : Prop where
  holdsEarlier : HoldsEarlier recovery.events (recovery.streams.map FramedStream.events)
  nonneg : ∀ event ∈ recovery.events, 0 ≤ recovery.index event
  writable : eventsFile = none → ∀ event ∈ recovery.events, ∀ c, event.HasChar c → c.isValidChar

/-! ### Recovering -/

/-- Events with different digests are dropped when they were seen. -/
theorem dropSeen_eq_noteAll [DecidableEq Value] {events : List Value}
    (hvalues : ∀ event ∈ events, IsValue event) : dropSeen events = noteAll [] events := by
  have hloop : ∀ (seen : List PyStr) (kept : List Value), (∀ event ∈ kept, IsValue event) →
      (∀ digest, digest ∈ seen ↔ digest ∈ kept.map render) →
      (events.foldl (fun (state : List PyStr × List Value) event ↦
        let digest := render event
        if digest ∈ state.1 then state else (digest :: state.1, state.2 ++ [event]))
          (seen, kept)).2 = noteAll kept events := by
    induction events with
    | nil => exact fun _ _ _ _ ↦ rfl
    | cons event events ih =>
      intro seen kept hkept hseen
      have hevent := hvalues event List.mem_cons_self
      have hrest := ih fun other hother ↦ hvalues other (List.mem_cons_of_mem event hother)
      have hknown : render event ∈ seen ↔ event ∈ kept := by
        rw [hseen, List.mem_map]
        constructor
        · rintro ⟨other, hother, hrender⟩
          rwa [← (render_inj (hkept other hother) hevent).mp hrender]
        · exact fun h ↦ ⟨event, h, rfl⟩
      rw [List.foldl_cons, noteAll_cons, note]
      dsimp only
      by_cases hmem : event ∈ kept
      · rw [if_pos (hknown.mpr hmem), if_pos hmem]
        exact hrest seen kept hkept hseen
      · rw [if_neg (mt hknown.mp hmem), if_neg hmem]
        refine hrest _ _ ?_ ?_
        · exact List.forall_mem_append.mpr ⟨hkept, List.forall_mem_singleton.mpr hevent⟩
        · intro digest
          rw [List.mem_cons, hseen, List.map_append, List.mem_append, or_comm]
          simp
  exact hloop [] [] (fun _ hevent ↦ absurd hevent List.not_mem_nil) fun _ ↦ Iff.rfl

theorem persistedTraceEvents_of_hasNoEvents {eventsFile : Option PyStr}
    (hnone : HasNoEvents eventsFile) (stdoutText stderrText : PyStr) (console : Option PyStr) :
    persistedTraceEvents "stdout" eventsFile stdoutText stderrText console =
      dropSeen <$> List.flatten <$>
        ([stdoutText, stderrText] ++ console.toList).mapM extractFramedEvents := by
  cases eventsFile with
  | none => rfl
  | some text =>
    rw [persistedTraceEvents, Option.map_some]
    cases hparse : parseEvents text with
    | error => rfl
    | ok events =>
      rw [hnone text rfl events hparse]
      rfl

theorem FramedStream.extractFramedEvents_eq (stream : FramedStream) :
    extractFramedEvents stream.text = .ok stream.events :=
  extractFramedEvents_of_endsWithColour stream.splitLines_eq stream.endsWithColour

theorem FramedStream.isEvent (stream : FramedStream) : ∀ event ∈ stream.events, IsEvent event := by
  intro event hevent
  obtain ⟨line, -, hline⟩ := List.mem_filterMap.mp hevent
  cases line with
  | other => cases hline
  | framed escapes frame =>
    obtain rfl := Option.some.inj hline
    exact ⟨isValue_of_parse frame.parse_eq, frame.isObject⟩

section Recovery

variable (recovery : Recovery) {eventsFile : Option PyStr} (hnone : HasNoEvents eventsFile)

theorem Recovery.isEvent : ∀ event ∈ recovery.events, IsEvent event := by
  intro event hevent
  obtain ⟨stream, -, hstream⟩ := recovery.covered event hevent
  exact stream.isEvent event hstream

theorem Recovery.nodup : recovery.events.Nodup :=
  recovery.increasing.imp fun hlt heq ↦ absurd (heq ▸ hlt) (lt_irrefl _)

include hnone

/-- The streams are read one after another. -/
theorem Recovery.persistedTraceEvents_eq [DecidableEq Value] :
    persistedTraceEvents "stdout" eventsFile recovery.stdout.text recovery.stderr.text
        (recovery.console.map FramedStream.text) =
      .ok (noteAll [] (recovery.streams.map FramedStream.events).flatten) := by
  have htexts : [recovery.stdout.text, recovery.stderr.text] ++
      (recovery.console.map FramedStream.text).toList =
        recovery.streams.map FramedStream.text := by
    rw [Recovery.streams]
    cases recovery.console <;> rfl
  have hextract : (recovery.streams.map FramedStream.text).mapM extractFramedEvents =
      .ok (recovery.streams.map FramedStream.events) := by
    rw [Fallible.mapM_eq_ok_iff, List.forall₂_map_left_iff, List.forall₂_map_right_iff,
      List.forall₂_same]
    exact fun stream _ ↦ stream.extractFramedEvents_eq
  have hvalues : ∀ event ∈ (recovery.streams.map FramedStream.events).flatten,
      IsValue event := by
    intro event hevent
    obtain ⟨_, hmap, hevent⟩ := List.mem_flatten.mp hevent
    obtain ⟨stream, -, rfl⟩ := List.mem_map.mp hmap
    exact (stream.isEvent event hevent).isValue
  rw [← dropSeen_eq_noteAll hvalues, persistedTraceEvents_of_hasNoEvents hnone, htexts, hextract]
  rfl

/-- The events come back when they are read in order and their file can be written. -/
theorem Recovery.recover_eq_ok_iff : recovery.recover eventsFile = .ok recovery.events ↔
    HoldsEarlier recovery.events (recovery.streams.map FramedStream.events) ∧
      (eventsFile = none → ∀ event ∈ recovery.events, ∀ c, event.HasChar c → c.isValidChar) := by
  classical
  have hstreams : ∀ stream ∈ recovery.streams.map FramedStream.events,
      stream.Sublist recovery.events := by
    intro _ hmap
    obtain ⟨stream, hstream, rfl⟩ := List.mem_map.mp hmap
    exact recovery.sublist stream hstream
  have hcovered : ∀ event ∈ recovery.events,
      ∃ stream ∈ recovery.streams.map FramedStream.events, event ∈ stream := by
    intro event hevent
    obtain ⟨stream, hstream, hmem⟩ := recovery.covered event hevent
    exact ⟨_, List.mem_map_of_mem hstream, hmem⟩
  rw [← noteAll_flatten_eq_iff recovery.nodup hstreams hcovered,
    ← forall_mem_eventsText_iff recovery.isEvent, Recovery.recover, recoverTraceEvents,
    recovery.persistedTraceEvents_eq hnone, Fallible.ok_bind]
  generalize noteAll [] (recovery.streams.map FramedStream.events).flatten = events
  cases eventsFile with
  | some text =>
    rw [Option.isNone_some, Bool.and_false, if_neg Bool.false_ne_true, Fallible.pure_eq_ok_iff]
    exact (and_iff_left fun h ↦ by cases h).symm
  | none =>
    rw [Option.isNone_none, Bool.and_true, forall_prop_of_true rfl]
    by_cases hempty : events = []
    · subst hempty
      rw [List.isEmpty_nil, Bool.not_true, if_neg Bool.false_ne_true, Fallible.pure_eq_ok_iff]
      refine (and_iff_left_of_imp fun h ↦ ?_).symm
      rw [← h]
      exact fun c hc ↦ absurd hc List.not_mem_nil
    · rw [if_pos (by simpa using hempty), Fallible.bind_eq_ok_iff]
      constructor
      · rintro ⟨bytes, hbytes, hevents⟩
        obtain rfl := Fallible.pure_eq_ok_iff.mp hevents
        exact ⟨rfl, exists_writeTextFile_iff.mp ⟨bytes, hbytes⟩⟩
      · rintro ⟨rfl, hvalid⟩
        obtain ⟨bytes, hbytes⟩ := exists_writeTextFile_iff.mpr hvalid
        exact ⟨bytes, hbytes, rfl⟩

end Recovery

/-- The indices of the events increase, so `validate_raw_trace` only looks at the first. -/
theorem IndexedEvents.validateStoredEvents_iff (indexed : IndexedEvents) (previous : ℤ) :
    validateStoredEvents previous indexed.events = .ok () ↔
      ∀ event ∈ indexed.events, previous < indexed.index event := by
  obtain ⟨events, index, hget, hincreasing⟩ := indexed
  dsimp only
  induction events generalizing previous with
  | nil => exact iff_of_true rfl fun _ hevent ↦ absurd hevent List.not_mem_nil
  | cons event events ih =>
    obtain ⟨hfirst, hrest⟩ := List.pairwise_cons.mp hincreasing
    have hstep : validateStoredEvents previous (event :: events) =
        if index event ≤ previous then
          .error ⟨"ValueError", "raw trace event indexes are not strictly increasing"⟩
        else validateStoredEvents (index event) events := by
      rw [validateStoredEvents, getItem, hget event List.mem_cons_self]
      rfl
    have hrun : validateStoredEvents (index event) events = .ok () :=
      (ih (index event) (fun other hother ↦ hget other (List.mem_cons_of_mem event hother))
        hrest).mpr hfirst
    rw [hstep, hrun, List.forall_mem_cons]
    split_ifs with hle
    · exact iff_of_false (fun h ↦ by cases h) fun h ↦ absurd h.1 hle.not_gt
    · have hlt := not_le.mp hle
      exact iff_of_true rfl ⟨hlt, fun other hother ↦ hlt.trans (hfirst other hother)⟩

/-- The events are recovered exactly when they arrive in order, stream after stream. -/
theorem recovers_iff (recovery : Recovery) {eventsFile : Option PyStr}
    (hnone : HasNoEvents eventsFile) :
    recovery.Recovers eventsFile ↔ recovery.ArrivesInOrder eventsFile := by
  have haccepted : validateStoredEvents (-1) recovery.events = .ok () ↔
      ∀ event ∈ recovery.events, 0 ≤ recovery.index event := by
    rw [recovery.validateStoredEvents_iff]
    exact forall₂_congr fun _ _ ↦ ⟨fun h ↦ by omega, fun h ↦ by omega⟩
  constructor
  · rintro ⟨hrecover, hvalid⟩
    obtain ⟨hholds, hwritable⟩ := (recovery.recover_eq_ok_iff hnone).mp hrecover
    exact ⟨hholds, haccepted.mp hvalid, hwritable⟩
  · rintro ⟨hholds, hnonneg, hwritable⟩
    exact ⟨(recovery.recover_eq_ok_iff hnone).mpr ⟨hholds, hwritable⟩, haccepted.mpr hnonneg⟩

/-! ### A stream that lost a line -/

/-- The frame `{"event_index": 0}`, or one with another index. -/
def numberedFrame (index : ℤ) : FramedEvent where
  body := render (.obj [(PyStr.ofString "event_index", .int index)])
  event := .obj [(PyStr.ofString "event_index", .int index)]
  parse_eq := parse_render (.obj (List.pairwise_singleton _ _) fun _ hmember ↦
    List.mem_singleton.mp hmember ▸ .int index)
  isObject := ⟨_, rfl⟩

/-- A stream with one frame. -/
def numberedStream (index : ℤ)
    (hline : splitLines (numberedFrame index).text = [(numberedFrame index).text]) :
    FramedStream where
  text := (numberedFrame index).text
  lines := [.framed [] (numberedFrame index)]
  splitLines_eq := hline
  endsWithColour := List.forall_mem_singleton.mpr endsWithColour_nil

def storedIndex (event : Value) : ℤ :=
  match event.get? (PyStr.ofString "event_index") with
  | some (.int index) => index
  | _ => 0

/-- The standard output has lost the first of two events, which the standard error has. -/
def lostLine : Recovery where
  events := [(numberedFrame 0).event, (numberedFrame 1).event]
  index := storedIndex
  get_eq := List.forall_mem_cons.mpr ⟨rfl, List.forall_mem_singleton.mpr rfl⟩
  increasing := List.pairwise_pair.mpr (by decide)
  stdout := numberedStream 1 (by decide +kernel)
  stderr := numberedStream 0 (by decide +kernel)
  console := none
  sublist := List.forall_mem_cons.mpr ⟨(List.Sublist.refl _).cons _,
    List.forall_mem_singleton.mpr ((List.nil_sublist _).cons_cons _)⟩
  covered := List.forall_mem_cons.mpr
    ⟨⟨_, List.mem_cons_of_mem _ List.mem_cons_self, List.mem_cons_self⟩,
      List.forall_mem_singleton.mpr ⟨_, List.mem_cons_self, List.mem_cons_self⟩⟩

theorem hasNoEvents_none : HasNoEvents none := fun _ htext ↦ by cases htext

theorem recovers_iff_lostLine : lostLine.Recovers none ↔ lostLine.ArrivesInOrder none :=
  recovers_iff lostLine hasNoEvents_none

/-- The second event comes back before the first. -/
theorem lostLine_not_recovers :
    ¬ ∀ (recovery : Recovery) (eventsFile : Option PyStr), HasNoEvents eventsFile →
      recovery.Recovers eventsFile := by
  intro h
  have hrecover := (h lostLine none hasNoEvents_none).recover_eq
  have hindices : (lostLine.recover none).toOption.map (fun events ↦ events.map storedIndex) =
      some [1, 0] := by decide +kernel
  rw [hrecover] at hindices
  exact absurd hindices (by decide +kernel)

end SyzAbi.Orchestrator
