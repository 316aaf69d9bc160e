import SyzAbi.Agent.TraceStream
import SyzAbi.Agent.TracerAgreement

/-!
# The integrity of the event stream

The destination of the Linux tracer's events holds one complete line for each call that returned, in
the order of the calls, and no file that the program opened holds bytes of an event, as long as
every call of the program spares the tracer's descriptor and its file (`Spares`). The tracer does
not enforce this: a program can close the descriptor, and what it opens next takes its number.
-/

set_option autoImplicit false
set_option relaxedAutoImplicit false

namespace SyzAbi.Agent

open Library.Json Library.OpenFiles Orchestrator

variable {Path : Type} [DecidableEq Path] (setup : TraceSetup Path) (start : Kernel Path ℕ)

/-! ### Intact streams -/

/-- The file that holds the events. -/
def destination (kernel : Kernel Path ℕ) : Option ℕ :=
  match setup.eventsFile with
  | none => start.fileOf stdoutFileno
  | some path => kernel.names path

/-- What the destination holds; nothing before it exists. -/
def destinationText (kernel : Kernel Path ℕ) : Text :=
  ((destination setup start kernel).map kernel.contents).getD []

/-- A text that ends with its only line break. -/
def CompleteLine (line : Text) : Prop :=
  ∃ body, line = body ++ [10] ∧ ∀ c ∈ body, isLineBreak c = false

/-- The destination got one complete line for each call that returned, and no file that the program
opened got bytes of an event. -/
structure Intact (calls : List (ProgramCall Path)) : Prop where
  lines : destinationText setup start (runCalls setup { kernel := start } calls).kernel =
    destinationText setup start start ++ (returnedCalls calls).flatMap (eventLine setup)
  complete : ∀ call ∈ returnedCalls calls, CompleteLine (eventLine setup call)
  apart : ∀ file ∈ (runCalls setup { kernel := start } calls).eventFiles,
    file ∉ (runCalls setup { kernel := start } calls).openedFiles

/-- The process at the start: there is no event file yet, or the standard output appends to what it
is. -/
def Ready : Prop :=
  match setup.eventsFile with
  | none => ∃ file, start.Attached stdoutFileno file
  | some path => start.names path = none

/-! ### Sparing calls -/

/-- The descriptor that the tracer writes to, if it has one. -/
def tracerFd (state : TracerState Path) : Option ℕ :=
  if setup.eventsFile = none then some stdoutFileno else state.traceFd

/-- The file is not the destination. -/
def Apart (kernel : Kernel Path ℕ) (file : Option ℕ) : Prop :=
  ∀ events, destination setup start kernel = some events → file ≠ some events

/-- The call does not close or replace the tracer's descriptor, does not change the destination or
its description through any descriptor or path, and neither opens nor renames it. -/
def Spares (state : TracerState Path) : Effect Path → Prop
  | .openFile path _ =>
    setup.eventsFile ≠ some path ∧ Apart setup start state.kernel (state.kernel.names path)
  | .close fd | .duplicateTo _ fd => tracerFd setup state ≠ some fd
  | .closeRange first last =>
    ∀ fd, tracerFd setup state = some fd → ¬(first ≤ fd ∧ fd ≤ last)
  | .write fd _ | .alter fd _ | .setAppend fd _ =>
    Apart setup start state.kernel (state.kernel.fileOf fd)
  | .alterNamed path _ => Apart setup start state.kernel (state.kernel.names path)
  | .relink names => ∀ path, setup.eventsFile = some path → names path = state.kernel.names path
  | .openAnonymous _ | .duplicate _ _ | .moveOffset _ _ | .nothing | .noReturn => True

/-- Every call of a run spares the tracer's descriptor and its file. -/
def EachSpares (state : TracerState Path) : List (ProgramCall Path) → Prop
  | [] => True
  | call :: rest => Spares setup start state call.effect ∧
      (call.effect.returns = true → EachSpares (tracedSyscall setup state call) rest)

variable {setup start}

/-! ### The system call -/

section Perform

variable {state : TracerState Path} {effect : Effect Path} {fd file : ℕ}

/-- A call that spares the stream keeps the descriptor attached and the contents of the destination.
-/
theorem preserves_perform (hspares : Spares setup start state effect)
    (hfd : tracerFd setup state = some fd)
    (hfile : destination setup start state.kernel = some file) :
    Kernel.Preserves fd file state.kernel (effect.perform setup.accepted state.kernel) := by
  cases effect with
  | openFile path flags =>
    rw [Effect.perform]
    cases hopen : state.kernel.openFile path flags with
    | none => exact Kernel.Preserves.refl _
    | some next => exact Kernel.preserves_openFile (hspares.2 file hfile) hopen
  | openAnonymous count => exact Kernel.preserves_openAnonymous count
  | close closed => exact Kernel.preserves_close fun heq ↦ hspares (heq ▸ hfd)
  | closeRange first last => exact Kernel.preserves_closeRange (hspares fd hfd)
  | duplicate source least => exact Kernel.preserves_duplicate source least
  | duplicateTo source target =>
    have htarget : fd ≠ target := fun heq ↦ hspares (heq ▸ hfd)
    exact Kernel.preserves_duplicateTo htarget source
  | write other bytes => exact Kernel.preserves_write _ bytes (hspares file hfile)
  | alter other update =>
    have hother := hspares file hfile
    rw [Effect.perform]
    cases hat : state.kernel.fileOf other with
    | none => exact Kernel.Preserves.refl _
    | some altered =>
      rw [hat] at hother
      exact Kernel.preserves_alterFile (fun heq ↦ hother (congrArg some heq)) update
  | alterNamed path update =>
    have hother := hspares file hfile
    rw [Effect.perform]
    cases hname : state.kernel.names path with
    | none => exact Kernel.Preserves.refl _
    | some altered =>
      rw [hname] at hother
      exact Kernel.preserves_alterFile (fun heq ↦ hother (congrArg some heq)) update
  | moveOffset moved offset =>
    rw [Effect.perform]
    cases state.kernel.descriptors.get moved with
    | none => exact Kernel.Preserves.refl _
    | some id => exact Kernel.preserves_moveDescription id offset
  | setAppend other append =>
    have hother := hspares file hfile
    rw [Effect.perform]
    cases hget : state.kernel.descriptors.get other with
    | none => exact Kernel.Preserves.refl _
    | some id =>
      apply Kernel.preserves_alterDescription
      intro description hdescription heq
      rw [Kernel.fileOf, Kernel.descriptionAt_eq_some_iff.mpr ⟨hget, hdescription⟩, Option.map_some,
        heq] at hother
      exact absurd rfl hother
  | relink names => exact Kernel.preserves_relink names
  | nothing | noReturn => exact Kernel.Preserves.refl _

/-- A call that spares the stream leaves the path of the events alone. -/
theorem names_perform (hspares : Spares setup start state effect) {path : Path}
    (hpath : setup.eventsFile = some path) :
    (effect.perform setup.accepted state.kernel).names path = state.kernel.names path := by
  cases effect with
  | openFile opened flags =>
    rw [Effect.perform]
    cases hopen : state.kernel.openFile opened flags with
    | none => rfl
    | some next =>
      have hne : path ≠ opened := fun heq ↦ hspares.1 (heq ▸ hpath)
      exact Kernel.names_openFile hne hopen
  | openAnonymous count => exact congrFun (Kernel.names_openAnonymous count) path
  | write other bytes => exact congrFun (Kernel.names_write _ other bytes) path
  | relink names => exact Kernel.names_relink (hspares path hpath)
  | close _ | closeRange _ _ | nothing | noReturn => rfl
  | duplicate source least =>
    rw [Effect.perform, Kernel.duplicate]
    split <;> rfl
  | duplicateTo source target =>
    rw [Effect.perform, Kernel.duplicateTo]
    split <;> rfl
  | alter _ _ | alterNamed _ _ | moveOffset _ _ | setAppend _ _ =>
    rw [Effect.perform]
    split <;> rfl

theorem destination_perform (hspares : Spares setup start state effect) :
    destination setup start (effect.perform setup.accepted state.kernel) =
      destination setup start state.kernel := by
  rw [destination, destination]
  cases hpath : setup.eventsFile with
  | none => rfl
  | some path => exact names_perform hspares hpath

/-- System calls do not remove files. -/
theorem length_files_perform (accepted : ℕ → ℕ) (kernel : Kernel Path ℕ) (effect : Effect Path) :
    kernel.files.length ≤ (effect.perform accepted kernel).files.length := by
  cases effect with
  | openFile path flags =>
    rw [Effect.perform]
    cases hopen : kernel.openFile path flags with
    | none => exact le_rfl
    | some next =>
      rw [Option.getD_some]
      rcases Kernel.length_files_openFile hopen with heq | ⟨heq, -⟩
      · exact heq.ge
      · omega
  | openAnonymous count =>
    rw [Effect.perform, Kernel.length_files_openAnonymous]
    exact Nat.le_add_right _ _
  | write fd bytes => exact (Kernel.length_files_write accepted fd bytes).ge
  | close _ | closeRange _ _ | relink _ | nothing | noReturn => exact le_rfl
  | duplicate source least =>
    rw [Effect.perform, Kernel.duplicate]
    split <;> exact le_rfl
  | duplicateTo source target =>
    rw [Effect.perform, Kernel.duplicateTo]
    split <;> exact le_rfl
  | moveOffset _ _ | setAppend _ _ =>
    rw [Effect.perform]
    split <;> exact le_rfl
  | alter _ _ | alterNamed _ _ =>
    rw [Effect.perform]
    split
    · exact (List.length_modify _ _ _).ge
    · exact le_rfl

/-- What a system call opens exists after it. -/
theorem lt_of_mem_opens {accepted : ℕ → ℕ} {kernel : Kernel Path ℕ} {opened : ℕ}
    (hopened : opened ∈ effect.opens kernel) :
    opened < (effect.perform accepted kernel).files.length := by
  cases effect with
  | openFile path flags =>
    rw [Effect.opens] at hopened
    cases hopen : kernel.openFile path flags with
    | none => simp [hopen] at hopened
    | some next =>
      rw [hopen, Option.isSome_some, if_pos rfl, List.mem_singleton] at hopened
      rw [Effect.perform, hopen, Option.getD_some]
      cases hname : kernel.names path with
      | some named =>
        rw [hname, Option.getD_some] at hopened
        rw [(Kernel.openFile_of_some hname hopen).2, hopened]
        exact kernel.names_lt path named hname
      | none =>
        rw [hname, Option.getD_none] at hopened
        rw [hopened, Kernel.openFile_of_none hname hopen]
        show kernel.files.length < (kernel.files ++ [[]]).length
        rw [List.length_append]
        exact Nat.lt_succ_self _
  | openAnonymous count =>
    rw [Effect.perform, Kernel.length_files_openAnonymous]
    rw [Effect.opens, List.mem_range'_1] at hopened
    exact hopened.2
  | close _ | closeRange _ _ | duplicate _ _ | duplicateTo _ _ | write _ _ | alter _ _
  | alterNamed _ _ | moveOffset _ _ | setAppend _ _ | relink _ | nothing | noReturn =>
    cases hopened

/-- A call that spares the stream does not open the destination. -/
theorem not_mem_opens (hspares : Spares setup start state effect)
    (hfile : destination setup start state.kernel = some file)
    (hlt : file < state.kernel.files.length) : file ∉ effect.opens state.kernel := by
  intro hmem
  cases effect with
  | openFile path flags =>
    have hother := hspares.2 file hfile
    rw [Effect.opens] at hmem
    split_ifs at hmem
    · rw [List.mem_singleton] at hmem
      cases hname : state.kernel.names path with
      | some named =>
        rw [hname] at hmem hother
        exact hother (congrArg some hmem.symm)
      | none =>
        rw [hname, Option.getD_none] at hmem
        omega
    · cases hmem
  | openAnonymous count =>
    rw [Effect.opens, List.mem_range'_1] at hmem
    omega
  | close _ | closeRange _ _ | duplicate _ _ | duplicateTo _ _ | write _ _ | alter _ _
  | alterNamed _ _ | moveOffset _ _ | setAppend _ _ | relink _ | nothing | noReturn =>
    cases hmem

end Perform

/-! ### Emitting a line -/

omit [DecidableEq Path] in
/-- A payload that is written through an attached descriptor is appended to the file. -/
theorem writeAll_attached (setup : TraceSetup Path) {fd file : ℕ} (payload : Text)
    {kernel : Kernel Path ℕ}
    (hattached : kernel.Attached fd file) :
    (writeAll setup kernel fd payload).1.Attached fd file ∧
      (writeAll setup kernel fd payload).1.contents file = kernel.contents file ++ payload := by
  fun_induction writeAll setup kernel fd payload with
  | case1 kernel payload hempty =>
    rw [List.eq_nil_of_length_eq_zero hempty, List.append_nil]
    exact ⟨hattached, rfl⟩
  | case2 kernel payload hpayload hfail =>
    rw [(hattached.write setup.accepted payload).2] at hfail
    exact absurd hfail (setup.accepted_pos _ (Nat.pos_of_ne_zero hpayload)).ne'
  | case3 kernel payload hpayload hcount count rest ih =>
    obtain ⟨⟨hnext, hcontents⟩, haccepted⟩ := hattached.write setup.accepted payload
    obtain ⟨hlast, hrest⟩ := ih hnext
    have hcount' : count = setup.accepted payload.length := haccepted
    refine ⟨hlast, ?_⟩
    rw [hrest, hcontents, List.append_assoc, hcount', List.take_append_drop]

omit [DecidableEq Path] in
theorem names_writeAll (kernel : Kernel Path ℕ) (fd : ℕ) (payload : Text) :
    (writeAll setup kernel fd payload).1.names = kernel.names := by
  fun_induction writeAll setup kernel fd payload with
  | case1 => rfl
  | case2 kernel payload => exact Kernel.names_write _ fd payload
  | case3 kernel payload _ _ _ _ ih => exact ih.trans (Kernel.names_write _ fd payload)

/-- No line is too long for the buffer of the frame. -/
theorem length_emitEvent_lt (env : TracerEnvironment) (event : Event) :
    traceStdoutPrefix.length + (emitEvent env event).length < 33024 := by
  have hline : (emitEvent env event).length ≤ 32767 := List.length_take_le _ _
  have hframe : traceStdoutPrefix.length = 23 := by decide
  omega

omit [DecidableEq Path] in
/-- Every line of the destination is complete. -/
theorem completeLine_eventLine (call : ProgramCall Path) :
    CompleteLine (eventLine setup call) := by
  have hbody := (printed_eventText setup.env (call.event setup)).printable.isLineBreak_eq
  rw [eventLine, emitEvent_eq]
  split_ifs
  · refine ⟨traceStdoutPrefix ++ eventText setup.env (call.event setup),
      (List.append_assoc _ _ _).symm, ?_⟩
    intro c hc
    rcases List.mem_append.mp hc with hframe | hevent
    · exact (by decide : ∀ c ∈ traceStdoutPrefix, isLineBreak c = false) c hframe
    · exact hbody c hevent
  · exact ⟨_, rfl, hbody⟩

/-! ### The invariant -/

/-- Nothing has been emitted, and the event file does not exist. -/
structure Waiting (setup : TraceSetup Path) (start : Kernel Path ℕ) (path : Path)
    (state : TracerState Path) : Prop where
  path_eq : setup.eventsFile = some path
  fresh : start.names path = none
  closed : state.traceFd = none
  plain : state.stdoutTransport = false
  absent : state.kernel.names path = none
  untouched : state.eventFiles = []
  opened_lt : ∀ file ∈ state.openedFiles, file < state.kernel.files.length

/-- The tracer's descriptor is attached to the destination, which holds the emitted text. -/
structure Streaming (setup : TraceSetup Path) (start : Kernel Path ℕ) (emitted : Text) (fd file : ℕ)
    (state : TracerState Path) : Prop where
  fd_eq : tracerFd setup state = some fd
  cached_eq : ∀ cached, state.traceFd = some cached → cached = fd
  transport_eq : state.traceFd ≠ none → state.stdoutTransport = decide (setup.eventsFile = none)
  file_eq : destination setup start state.kernel = some file
  attached : state.kernel.Attached fd file
  contents_eq : state.kernel.contents file = destinationText setup start start ++ emitted
  opened_ne : file ∉ state.openedFiles
  event_eq : ∀ other ∈ state.eventFiles, other = file

/-- The tracer waits for its first event, or it streams. -/
def TracerInv (setup : TraceSetup Path) (start : Kernel Path ℕ) (emitted : Text)
    (state : TracerState Path) : Prop :=
  (emitted = [] ∧ ∃ path, Waiting setup start path state) ∨
    ∃ fd file, Streaming setup start emitted fd file state

/-- The state after the system call and before its event. -/
def afterCall (setup : TraceSetup Path) (state : TracerState Path) (effect : Effect Path) :
    TracerState Path :=
  { state with
    kernel := effect.perform setup.accepted state.kernel
    openedFiles := state.openedFiles ++ effect.opens state.kernel }

theorem Waiting.afterCall {path : Path} {state : TracerState Path} {effect : Effect Path}
    (hwaiting : Waiting setup start path state) (hspares : Spares setup start state effect) :
    Waiting setup start path (afterCall setup state effect) where
  path_eq := hwaiting.path_eq
  fresh := hwaiting.fresh
  closed := hwaiting.closed
  plain := hwaiting.plain
  absent := (names_perform hspares hwaiting.path_eq).trans hwaiting.absent
  untouched := hwaiting.untouched
  opened_lt := by
    intro file hfile
    rcases List.mem_append.mp hfile with hold | hnew
    · exact (hwaiting.opened_lt file hold).trans_le (length_files_perform _ _ effect)
    · exact lt_of_mem_opens hnew

theorem Streaming.afterCall {emitted : Text} {fd file : ℕ} {state : TracerState Path}
    {effect : Effect Path} (hstream : Streaming setup start emitted fd file state)
    (hspares : Spares setup start state effect) :
    Streaming setup start emitted fd file (afterCall setup state effect) := by
  obtain ⟨hattached, hcontents⟩ :=
    preserves_perform hspares hstream.fd_eq hstream.file_eq hstream.attached
  refine ⟨hstream.fd_eq, hstream.cached_eq, hstream.transport_eq, ?_, hattached, ?_, ?_,
    hstream.event_eq⟩
  · exact (destination_perform hspares).trans hstream.file_eq
  · exact hcontents.trans hstream.contents_eq
  · intro hmem
    rcases List.mem_append.mp hmem with hold | hnew
    · exact hstream.opened_ne hold
    · exact not_mem_opens hspares hstream.file_eq hstream.attached.1 hnew

/-- The part of `emit_trace_line` behind `open_trace_file`. -/
theorem emitTraceLine_of_open {state opened : TracerState Path} {fd : ℕ} {line : Text}
    (hopen : openTraceFile setup state = (opened, some fd))
    (hshort : traceStdoutPrefix.length + line.length < 33024) :
    emitTraceLine setup state line =
      let payload := if opened.stdoutTransport then traceStdoutPrefix ++ line else line
      let written := writeAll setup opened.kernel fd payload
      { opened with
        kernel := written.1
        eventFiles := opened.eventFiles ++
          if written.2 = 0 then [] else (opened.kernel.fileOf fd).toList } := by
  rw [emitTraceLine, hopen]
  simp only [show ¬33024 ≤ traceStdoutPrefix.length + line.length by omega, decide_false,
    Bool.and_false, Bool.false_eq_true, if_false]

/-- A streaming tracer appends the line to the destination. -/
theorem Streaming.emit {emitted : Text} {fd file : ℕ} {state opened : TracerState Path}
    {line : Text} (hopen : openTraceFile setup state = (opened, some fd))
    (hstream : Streaming setup start emitted fd file opened) (hfd : opened.traceFd = some fd)
    (hshort : traceStdoutPrefix.length + line.length < 33024) :
    Streaming setup start
      (emitted ++ ((if setup.eventsFile = none then traceStdoutPrefix else []) ++ line)) fd file
      (emitTraceLine setup state line) := by
  have hpayload : (if opened.stdoutTransport then traceStdoutPrefix ++ line else line) =
      (if setup.eventsFile = none then traceStdoutPrefix else []) ++ line := by
    rw [hstream.transport_eq (by rw [hfd]; exact Option.some_ne_none fd)]
    by_cases hstdout : setup.eventsFile = none <;> simp [hstdout]
  rw [emitTraceLine_of_open hopen hshort, hpayload]
  obtain ⟨hattached, hcontents⟩ := writeAll_attached setup
    ((if setup.eventsFile = none then traceStdoutPrefix else []) ++ line) hstream.attached
  refine ⟨hstream.fd_eq, hstream.cached_eq, hstream.transport_eq, ?_, hattached, ?_,
    hstream.opened_ne, ?_⟩
  · have hfile := hstream.file_eq
    rw [destination] at hfile ⊢
    rwa [names_writeAll]
  · rw [hcontents, hstream.contents_eq, List.append_assoc]
  · intro other hother
    rcases List.mem_append.mp hother with hold | hnew
    · exact hstream.event_eq other hold
    · obtain ⟨-, hnew⟩ := List.mem_ite_nil_left.mp hnew
      rw [hstream.attached.fileOf, Option.toList_some, List.mem_singleton] at hnew
      exact hnew

/-- The first event opens its file. -/
theorem openTraceFile_of_waiting {start : Kernel Path ℕ} {path : Path} {state : TracerState Path}
    (hwaiting : Waiting setup start path state) :
    ∃ opened fd, openTraceFile setup state = (opened, some fd) ∧ opened.traceFd = some fd ∧
      Streaming setup start [] fd state.kernel.files.length opened := by
  obtain ⟨next, hopen, hattached, hcontents, hname⟩ := Kernel.attached_openFile hwaiting.absent
  have hfile : destination setup start next = some state.kernel.files.length := by
    rw [destination, hwaiting.path_eq]
    exact hname
  have hinitial : destinationText setup start start = [] := by
    rw [destinationText, destination, hwaiting.path_eq]
    simp only [hwaiting.fresh, Option.map_none, Option.getD_none]
  refine ⟨{ state with
      kernel := next, traceFd := some (state.kernel.descriptors.lowestFree 0) }, _, ?_, rfl, ?_⟩
  · rw [openTraceFile, hwaiting.closed, hwaiting.path_eq]
    simp only [hopen]
  · refine ⟨?_, fun cached hcached ↦ (Option.some.inj hcached).symm, ?_, hfile, hattached, ?_, ?_,
      ?_⟩
    · rw [tracerFd, hwaiting.path_eq, if_neg (Option.some_ne_none path)]
    · intro _
      rw [hwaiting.path_eq]
      exact hwaiting.plain
    · rw [hcontents, hinitial]
      rfl
    · exact fun hmem ↦ absurd (hwaiting.opened_lt _ hmem) (lt_irrefl _)
    · rw [hwaiting.untouched]
      exact fun other hother ↦ absurd hother List.not_mem_nil

/-- A streaming tracer has its descriptor. -/
theorem openTraceFile_of_streaming {emitted : Text} {fd file : ℕ} {state : TracerState Path}
    (hstream : Streaming setup start emitted fd file state) :
    ∃ opened, openTraceFile setup state = (opened, some fd) ∧ opened.traceFd = some fd ∧
      Streaming setup start emitted fd file opened := by
  have hfd := hstream.fd_eq
  rw [tracerFd] at hfd
  cases hfile : setup.eventsFile with
  | some path =>
    rw [hfile, if_neg (Option.some_ne_none path)] at hfd
    exact ⟨state, by rw [openTraceFile, hfd], hfd, hstream⟩
  | none =>
    rw [if_pos hfile] at hfd
    cases hcached : state.traceFd with
    | some cached =>
      rw [hstream.cached_eq cached hcached] at hcached
      exact ⟨state, by rw [openTraceFile, hcached], hcached, hstream⟩
    | none =>
      refine ⟨{ state with stdoutTransport := true, traceFd := some stdoutFileno }, ?_, hfd, ?_⟩
      · rw [openTraceFile, hcached, hfile, Option.some.inj hfd]
      · refine ⟨?_, fun cached hcached ↦ ?_, fun _ ↦ ?_, hstream.file_eq, hstream.attached,
          hstream.contents_eq, hstream.opened_ne, hstream.event_eq⟩
        · rw [tracerFd, if_pos hfile, hfd]
        · exact Option.some.inj (hcached.symm.trans hfd)
        · rw [hfile]
          rfl

/-- A call that returns adds its line. -/
theorem TracerInv.tracedSyscall {emitted : Text} {state : TracerState Path}
    {call : ProgramCall Path} (hinv : TracerInv setup start emitted state)
    (hspares : Spares setup start state call.effect) :
    TracerInv setup start (emitted ++ eventLine setup call)
      (tracedSyscall setup state call) := by
  have hshort := length_emitEvent_lt setup.env (call.event setup)
  rcases hinv with ⟨rfl, path, hwaiting⟩ | ⟨fd, file, hstream⟩
  · obtain ⟨opened, fd, hopen, hfd, hstream⟩ :=
      openTraceFile_of_waiting (hwaiting.afterCall hspares)
    exact Or.inr ⟨fd, _, hstream.emit hopen hfd hshort⟩
  · obtain ⟨opened, hopen, hfd, hstream⟩ := openTraceFile_of_streaming (hstream.afterCall hspares)
    exact Or.inr ⟨fd, file, hstream.emit hopen hfd hshort⟩

/-- Over a run, the invariant collects the lines of the calls that returned. -/
theorem TracerInv.runCalls {emitted : Text} {calls : List (ProgramCall Path)}
    {state : TracerState Path} (hinv : TracerInv setup start emitted state)
    (hspares : EachSpares setup start state calls) :
    TracerInv setup start (emitted ++ (returnedCalls calls).flatMap (eventLine setup))
      (runCalls setup state calls) := by
  induction calls generalizing emitted state with
  | nil =>
    rw [returnedCalls, List.takeWhile_nil, List.flatMap_nil, List.append_nil]
    exact hinv
  | cons call rest ih =>
    obtain ⟨hcall, hrest⟩ := hspares
    rw [Agent.runCalls, returnedCalls, List.takeWhile_cons]
    by_cases hreturns : call.effect.returns = true
    · rw [if_pos hreturns, if_pos hreturns, List.flatMap_cons, ← List.append_assoc]
      exact ih (hinv.tracedSyscall hcall) (hrest hreturns)
    · rw [if_neg hreturns, if_neg hreturns, List.flatMap_nil, List.append_nil]
      exact hinv

omit [DecidableEq Path] in
theorem Ready.tracerInv (hready : Ready setup start) :
    TracerInv setup start [] { kernel := start } := by
  rw [Ready] at hready
  cases hfile : setup.eventsFile with
  | none =>
    rw [hfile] at hready
    obtain ⟨file, hattached⟩ := hready
    have hdestination : destination setup start start = some file := by
      rw [destination, hfile]
      exact hattached.fileOf
    refine Or.inr ⟨stdoutFileno, file, ?_, ?_, ?_, hdestination, hattached, ?_, ?_, ?_⟩
    · rw [tracerFd, if_pos hfile]
    · exact fun cached hcached ↦ absurd hcached.symm (Option.some_ne_none cached)
    · exact fun hopen ↦ absurd rfl hopen
    · rw [destinationText, hdestination, Option.map_some, Option.getD_some, List.append_nil]
    · exact List.not_mem_nil
    · exact fun other hother ↦ absurd hother List.not_mem_nil
  | some path =>
    rw [hfile] at hready
    exact Or.inl ⟨rfl, path, hfile, hready, rfl, rfl, hready, rfl,
      fun file hmem ↦ absurd hmem List.not_mem_nil⟩

/-- The invariant says that the stream is intact. -/
theorem TracerInv.intact {calls : List (ProgramCall Path)}
    (hinv : TracerInv setup start ((returnedCalls calls).flatMap (eventLine setup))
      (Agent.runCalls setup { kernel := start } calls)) :
    Intact setup start calls := by
  refine ⟨?_, fun call _ ↦ completeLine_eventLine call, ?_⟩
  · rcases hinv with ⟨hnone, path, hwaiting⟩ | ⟨fd, file, hstream⟩
    · rw [hnone, List.append_nil, destinationText, destinationText, destination, destination,
        hwaiting.path_eq]
      simp only [hwaiting.absent, hwaiting.fresh, Option.map_none]
    · rw [destinationText, hstream.file_eq, Option.map_some, Option.getD_some,
        hstream.contents_eq]
  · rcases hinv with ⟨-, path, hwaiting⟩ | ⟨fd, file, hstream⟩
    · rw [hwaiting.untouched]
      exact fun file hfile ↦ absurd hfile List.not_mem_nil
    · intro other hother
      rw [hstream.event_eq other hother]
      exact hstream.opened_ne

theorem EachSpares.of_isPrefix {calls initial : List (ProgramCall Path)}
    {state : TracerState Path} (hspares : EachSpares setup start state calls)
    (hinitial : initial <+: calls) : EachSpares setup start state initial := by
  induction calls generalizing initial state with
  | nil =>
    rw [List.prefix_nil.mp hinitial]
    trivial
  | cons call rest ih =>
    rcases List.prefix_cons_iff.mp hinitial with rfl | ⟨shorter, rfl, hshorter⟩
    · trivial
    · exact ⟨hspares.1, fun hreturns ↦ ih (hspares.2 hreturns) hshorter⟩

/-- As long as every call of a run spares the tracer's descriptor and its file, the stream is intact
after each of the calls. -/
theorem intact_of_eachSpares (setup : TraceSetup Path) (start : Kernel Path ℕ)
    (calls : List (ProgramCall Path)) (hready : Ready setup start)
    (hspares : EachSpares setup start { kernel := start } calls) :
    ∀ initial, initial <+: calls → Intact setup start initial := by
  intro initial hinitial
  have hinv := hready.tracerInv.runCalls (hspares.of_isPrefix hinitial)
  rw [List.nil_append] at hinv
  exact hinv.intact

/-! ### A program that closes the tracer's descriptor -/

/-- The tracer of the reference run, with an event file. -/
def fileSetup : TraceSetup String where
  env := smokeTracers.reference
  eventsPath := some "/case/raw-trace.events.jsonl"
  resolve := id
  accepted := id
  accepted_pos := fun _ hpos ↦ hpos
  accepted_le := fun _ ↦ le_rfl

/-- A process with its three standard descriptors. -/
def freshProcess : Kernel String ℕ where
  descriptors := [some 0, some 1, some 2]
  descriptions := [⟨0, false, false, 0⟩, ⟨1, true, true, 0⟩, ⟨2, true, true, 0⟩]
  files := [[], [], []]
  names := fun _ ↦ none
  names_lt := fun _ _ hname ↦ absurd hname.symm (Option.some_ne_none _)

/-- A call of a program that answers `ret`. -/
def programCall (name : ShortName) (number callIndex a0 ret : Int64) (effect : Effect String) :
    ProgramCall String where
  call := ⟨name, number, callIndex, ⟨a0, 0, 0, 0, 0, 0⟩⟩
  effect := effect
  result := ⟨ret, 0, fun _ ↦ 0⟩
  times := ⟨1, 2⟩

def writableFile : OpenFlags := { writable := true, create := true }

/-- `getpid()`, `close(3)` and `creat("file0")`. The tracer's descriptor is 3 after the first call.
-/
def reopening : List (ProgramCall String) :=
  [programCall getpidName 39 0 0 1000 .nothing,
   programCall CommonSyscall.close.name 3 1 3 0 (.close 3),
   programCall ⟨"creat", by decide, by decide⟩ 85 2 4096 3 (.openFile "file0" writableFile)]

/-- The event of `creat` is written into the file that `creat` opened. -/
theorem reopening_not_intact :
    Ready fileSetup freshProcess ∧ ¬Intact fileSetup freshProcess reopening :=
  ⟨rfl, fun hintact ↦ hintact.apart 4 (by decide +kernel) (by decide +kernel)⟩

/-- `creat("file0")` and `close(3)`. The tracer's descriptor is 4 after the first call. -/
def closingOwn : List (ProgramCall String) :=
  [programCall ⟨"creat", by decide, by decide⟩ 85 0 4096 3 (.openFile "file0" writableFile),
   programCall CommonSyscall.close.name 3 1 3 0 (.close 3)]

theorem closingOwn_intact : Intact fileSetup freshProcess closingOwn := by
  refine intact_of_eachSpares fileSetup freshProcess closingOwn rfl ?_ closingOwn List.prefix_rfl
  refine ⟨⟨by decide, fun events hevents ↦ ?_⟩, fun _ ↦ ⟨?_, fun _ ↦ trivial⟩⟩
  · exact absurd hevents.symm (Option.some_ne_none events)
  · show tracerFd fileSetup _ ≠ some 3
    decide +kernel

end SyzAbi.Agent
