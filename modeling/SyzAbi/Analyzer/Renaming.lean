import SyzAbi.Analyzer.Normalize
import SyzAbi.Library.FirstUse

/-!
# Canonicalization as a rendering of handle positions

An event has positions: its arguments, its return value, and the fd resource values of its outputs.
A position is a literal number, or a handle of a kind (`Position`). `normalize_event` visits the
handles in order and asks the context for their tokens. Since the context only grows, the token a
value gets when it is met is the token it has in the final context, so the canonical trace is a
pure rendering of the positions under the final tables of the three kinds (`renderEvent`,
`normalizeEvents_run`). The final table of a kind lists the handles of that kind by first use
(`SyzAbi.Library.FirstUse`).

`Renders m handles render` is the interface between the two levels: run from any context, `m` asks
for exactly `handles`, in order, and its result is `render` of every later table.
-/

set_option autoImplicit false
set_option relaxedAutoImplicit false

namespace SyzAbi.Analyzer

open CanonicalContext Library.FirstUse

/-! ### Handle tables -/

/-- A handle: a value together with its kind. -/
abbrev Handle := HandleKind × ℤ

/-- The values of one kind in a list of handles. -/
def valuesOf (kind : HandleKind) (handles : List Handle) : List ℤ :=
  handles.filterMap fun handle ↦ if handle.1 = kind then some handle.2 else none

/-- The tables of the three kinds: the values of each kind, by first use. -/
abbrev KeyTables := HandleKind → List ℤ

/-- The tables after the handles of a list have been asked for. -/
def noteHandles (keys : KeyTables) (handles : List Handle) : KeyTables := fun kind ↦
  noteAll (keys kind) (valuesOf kind handles)

/-- The tables of a context that has been asked for `handles` only. -/
def tablesOf (handles : List Handle) : KeyTables :=
  noteHandles (fun _ ↦ []) handles

theorem valuesOf_append (kind : HandleKind) (first second : List Handle) :
    valuesOf kind (first ++ second) = valuesOf kind first ++ valuesOf kind second :=
  List.filterMap_append

@[simp] theorem noteHandles_nil (keys : KeyTables) : noteHandles keys [] = keys := rfl

theorem noteHandles_append (keys : KeyTables) (first second : List Handle) :
    noteHandles keys (first ++ second) = noteHandles (noteHandles keys first) second := by
  funext kind
  unfold noteHandles
  rw [valuesOf_append, noteAll_append]

theorem mem_valuesOf {kind : HandleKind} {value : ℤ} {handles : List Handle} :
    value ∈ valuesOf kind handles ↔ (kind, value) ∈ handles := by
  unfold valuesOf
  rw [List.mem_filterMap]
  constructor
  · rintro ⟨⟨other, number⟩, hmem, heq⟩
    obtain ⟨rfl, hvalue⟩ := Option.ite_none_right_eq_some.mp heq
    rw [← Option.some.inj hvalue]
    exact hmem
  · intro hmem
    exact ⟨(kind, value), hmem, if_pos rfl⟩

/-- Every table of `tablesOf` lists its values once. -/
theorem nodup_tablesOf (handles : List Handle) (kind : HandleKind) :
    (tablesOf handles kind).Nodup :=
  nodup_noteAll List.nodup_nil _

/-- A handle of the list is in its table. -/
theorem mem_tablesOf {kind : HandleKind} {value : ℤ} {handles : List Handle}
    (hmem : (kind, value) ∈ handles) : value ∈ tablesOf handles kind :=
  (mem_noteAll _ _ _).mpr (Or.inr (mem_valuesOf.mpr hmem))

/-- One set of tables extends another. -/
def Extends (keys later : KeyTables) : Prop := ∀ kind, keys kind <+: later kind

theorem Extends.refl (keys : KeyTables) : Extends keys keys :=
  fun kind ↦ List.prefix_refl (keys kind)

theorem Extends.trans {first middle last : KeyTables} (hfirst : Extends first middle)
    (hlast : Extends middle last) : Extends first last :=
  fun kind ↦ (hfirst kind).trans (hlast kind)

theorem extends_noteHandles (keys : KeyTables) (handles : List Handle) :
    Extends keys (noteHandles keys handles) :=
  fun _ ↦ prefix_noteAll _ _

/-! ### The context represents its tables -/

/-- The dictionary with the given keys, each paired with the token of its position. -/
def numbered (kind : HandleKind) (keys : List ℤ) : List (ℤ × String) :=
  keys.zipIdx.map fun entry ↦ (entry.1, tokenText kind entry.2)

/-- The dictionaries of a context are the numbered tables, without repeated keys. -/
def Represents (ctx : CanonicalContext) (keys : KeyTables) : Prop :=
  ∀ kind, ctx.mapping kind = numbered kind (keys kind) ∧ (keys kind).Nodup

theorem represents_empty : Represents {} fun _ ↦ [] := by
  intro kind
  refine ⟨?_, List.nodup_nil⟩
  cases kind <;> rfl

@[simp] theorem length_numbered (kind : HandleKind) (keys : List ℤ) :
    (numbered kind keys).length = keys.length := by
  simp [numbered]

theorem numbered_concat (kind : HandleKind) (keys : List ℤ) (value : ℤ) :
    numbered kind (keys ++ [value]) =
      numbered kind keys ++ [(value, tokenText kind keys.length)] := by
  simp [numbered, List.zipIdx_append]

/-- Looking a value up in the dictionary built from position `start` on. -/
theorem lookup_zipIdx (kind : HandleKind) (keys : List ℤ) (value : ℤ) (start : ℕ) :
    ((keys.zipIdx start).map fun entry ↦ (entry.1, tokenText kind entry.2)).lookup value =
      if value ∈ keys then some (tokenText kind (start + keys.idxOf value)) else none := by
  induction keys generalizing start with
  | nil => rfl
  | cons key rest ih =>
    rw [List.zipIdx_cons, List.map_cons, List.lookup_cons, ih]
    by_cases hkey : value = key
    · subst hkey
      simp
    · have hbeq : (value == key) = false := beq_false_of_ne hkey
      have hindex : (key :: rest).idxOf value = rest.idxOf value + 1 :=
        List.idxOf_cons_ne _ (Ne.symm hkey)
      simp only [hbeq, List.mem_cons, hkey, false_or, hindex]
      rw [show start + 1 + rest.idxOf value = start + (rest.idxOf value + 1) by omega]

theorem lookup_numbered (kind : HandleKind) (keys : List ℤ) (value : ℤ) :
    (numbered kind keys).lookup value =
      if value ∈ keys then some (tokenText kind (keys.idxOf value)) else none := by
  have hlookup := lookup_zipIdx kind keys value 0
  rw [zero_add] at hlookup
  exact hlookup

/-- The tokens of two handles are equal exactly when the kinds and the numbers are. -/
theorem tokenText_inj {kind kind' : HandleKind} {number number' : ℕ} :
    tokenText kind number = tokenText kind' number' ↔ kind = kind' ∧ number = number' := by
  constructor
  · intro heq
    have hlist := congrArg String.toList heq
    simp only [tokenText, String.toList_append] at hlist
    cases kind <;> cases kind' <;>
      simp only [HandleKind.name, String.reduceToList, List.cons_append, List.nil_append,
        List.cons.injEq, true_and, false_and, Char.reduceEq, String.toList_inj,
        Nat.repr_inj] at hlist <;>
      exact ⟨rfl, hlist⟩
  · rintro ⟨rfl, rfl⟩
    rfl

/-! ### Rendering -/

section Rendering

variable {γ δ : Type}

/-- Run from any context, `m` asks for exactly `handles`, in order, and its result is `render` of
every later table. -/
def Renders (m : StateM CanonicalContext γ) (handles : List Handle) (render : KeyTables → γ) :
    Prop :=
  ∀ ctx keys, Represents ctx keys →
    Represents (m ctx).2 (noteHandles keys handles) ∧
      ∀ final, Extends (noteHandles keys handles) final → (m ctx).1 = render final

theorem renders_pure (value : γ) : Renders (pure value) [] fun _ ↦ value :=
  fun _ _ hctx ↦ ⟨hctx, fun _ _ ↦ rfl⟩

theorem Renders.bind {m : StateM CanonicalContext γ} {f : γ → StateM CanonicalContext δ}
    {first second : List Handle} {render : KeyTables → γ} {renderNext : γ → KeyTables → δ}
    (hm : Renders m first render) (hf : ∀ value, Renders (f value) second (renderNext value)) :
    Renders (m >>= f) (first ++ second) fun final ↦ renderNext (render final) final := by
  intro ctx keys hctx
  obtain ⟨hmiddle, hvalue⟩ := hm ctx keys hctx
  obtain ⟨hlast, hresult⟩ := hf (m ctx).1 (m ctx).2 _ hmiddle
  rw [noteHandles_append]
  refine ⟨hlast, fun final hfinal ↦ ?_⟩
  have hfirst : (m ctx).1 = render final :=
    hvalue final ((extends_noteHandles _ second).trans hfinal)
  change (f (m ctx).1 (m ctx).2).1 = renderNext (render final) final
  rw [hresult final hfinal, hfirst]

theorem Renders.map {m : StateM CanonicalContext γ} {handles : List Handle}
    {render : KeyTables → γ} (g : γ → δ) (hm : Renders m handles render) :
    Renders (g <$> m) handles fun final ↦ g (render final) := by
  intro ctx keys hctx
  obtain ⟨hlast, hvalue⟩ := hm ctx keys hctx
  exact ⟨hlast, fun final hfinal ↦ congrArg g (hvalue final hfinal)⟩

/-- A loop asks for the handles of its items in order. -/
theorem renders_mapM {ι : Type} (f : ι → StateM CanonicalContext γ) (handles : ι → List Handle)
    (render : ι → KeyTables → γ) (hf : ∀ item, Renders (f item) (handles item) (render item))
    (items : List ι) :
    Renders (items.mapM f) (items.flatMap handles) fun final ↦
      items.map fun item ↦ render item final := by
  induction items with
  | nil => exact renders_pure []
  | cons item rest ih =>
    have htail : ∀ value, Renders ((value :: ·) <$> rest.mapM f) (rest.flatMap handles)
        fun final ↦ value :: rest.map fun item ↦ render item final :=
      fun value ↦ ih.map (value :: ·)
    simpa only [List.mapM_cons, List.flatMap_cons, List.map_cons, bind_pure_comp] using
      (hf item).bind htail

/-- One request: the token is the one of the value's number in every later table. -/
theorem renders_token (kind : HandleKind) (value : ℤ) :
    Renders (token kind value) [(kind, value)] fun final ↦
      tokenText kind ((final kind).idxOf value) := by
  intro ctx keys hctx
  have hvalues : ∀ other, valuesOf other [(kind, value)] = if kind = other then [value] else [] :=
    fun other ↦ by by_cases h : kind = other <;> simp [valuesOf, h]
  have hstep : noteHandles keys [(kind, value)] kind = note (keys kind) value := by
    rw [noteHandles, hvalues, if_pos rfl, noteAll_cons, noteAll_nil]
  have hother : ∀ other ≠ kind, noteHandles keys [(kind, value)] other = keys other :=
    fun other hne ↦ by rw [noteHandles, hvalues, if_neg hne.symm, noteAll_nil]
  have hlookup := lookup_numbered kind (keys kind) value
  rw [← (hctx kind).1] at hlookup
  by_cases hknown : value ∈ keys kind
  · rw [if_pos hknown] at hlookup
    have hrun : token kind value ctx = (tokenText kind ((keys kind).idxOf value), ctx) := by
      simp only [token, hlookup]
    have hsame : noteHandles keys [(kind, value)] = keys := by
      funext other
      by_cases hkind : other = kind
      · rw [hkind, hstep, note, if_pos hknown]
      · exact hother other hkind
    rw [hrun, hsame]
    refine ⟨hctx, fun final hfinal ↦ ?_⟩
    change tokenText kind _ = tokenText kind _
    rw [idxOf_of_extends (hfinal kind) hknown]
  · rw [if_neg hknown] at hlookup
    have hlength : (ctx.mapping kind).length = (keys kind).length := by
      rw [(hctx kind).1, length_numbered]
    have hrun : token kind value ctx = (tokenText kind (keys kind).length,
        ctx.insert kind value (tokenText kind (keys kind).length)) := by
      simp only [token, hlookup, hlength]
    have hnew : noteHandles keys [(kind, value)] kind = keys kind ++ [value] := by
      rw [hstep, note, if_neg hknown]
    rw [hrun]
    constructor
    · intro other
      by_cases hkind : other = kind
      · subst hkind
        rw [mapping_insert_self, hnew, numbered_concat, (hctx other).1]
        refine ⟨rfl, ?_⟩
        rw [← hnew, hstep]
        exact nodup_note (hctx other).2 value
      · rw [mapping_insert_of_ne _ hkind, hother other hkind]
        exact hctx other
    · intro final hfinal
      have hindex : (final kind).idxOf value = (keys kind).length := by
        have hmem : value ∈ keys kind ++ [value] :=
          List.mem_append_right _ (List.mem_singleton_self _)
        rw [idxOf_of_extends (hnew ▸ hfinal kind) hmem, List.idxOf_append_of_notMem hknown,
          List.idxOf_cons_self, add_zero]
      change tokenText kind _ = tokenText kind _
      rw [hindex]

end Rendering

/-! ### Positions -/

/-- A position of an event: a number that stays as it is, or a handle of a kind. -/
inductive Position
  | literal (value : ℤ)
  | handle (kind : HandleKind) (value : ℤ)
  deriving DecidableEq

/-- The handles of a position. -/
def Position.handles : Position → List Handle
  | .literal _ => []
  | .handle kind value => [(kind, value)]

/-- The canonical value of a position under given tables. -/
def Position.render (keys : KeyTables) : Position → Scalar
  | .literal value => .int value
  | .handle kind value => .token (tokenText kind ((keys kind).idxOf value))

/-- The position of a value that `normalize_event` gave a kind: a sentinel is not a handle. -/
def scalarPosition (value : ℤ) : Option HandleKind → Position
  | some kind => if value ∈ sentinelValues then .literal value else .handle kind value
  | none => .literal value

/-- The argument positions of an event. -/
def argPositions (event : RawEvent) : List Position :=
  event.args.zipIdx.map fun entry ↦
    scalarPosition entry.1 (argKind event.syscallName entry.2 entry.1)

/-- The return position of an event. -/
def returnPosition (event : RawEvent) : Position :=
  if event.returnValue ≠ 0 then
    scalarPosition event.returnValue (returnKind event.syscallName event.returnValue)
  else .literal 0

/-- The fd resource values of an output. -/
def fdResourceValues (output : RawOutput) : List ℤ :=
  if output.resourceKind = some "fd" then output.resourceValues else []

/-- The handles of an output. -/
def outputHandles (output : RawOutput) : List Handle :=
  (fdResourceValues output).map fun value ↦ (.fd, value)

/-- The handles of an event, in the order of `normalize_event`. -/
def eventHandles (event : RawEvent) : List Handle :=
  (argPositions event).flatMap Position.handles ++
    ((returnPosition event).handles ++ event.outputs.flatMap outputHandles)

/-- The canonical form of an output under given tables. -/
def renderOutput (keys : KeyTables) (output : RawOutput) : CanonicalOutput where
  label := output.label
  argIndex := output.argIndex
  length := output.length
  previewHex := maskedPreview output
  sha256 := output.sha256
  fdResources :=
    if output.resourceKind = some "fd" then
      some (output.resourceValues.map fun value ↦ tokenText .fd ((keys .fd).idxOf value))
    else none

/-- The canonical form of an event under given tables. -/
def renderEvent (keys : KeyTables) (event : RawEvent) (index : ℕ) : CanonicalEvent where
  index := index
  sourceEventIndex := event.eventIndex
  syscallName := event.syscallName
  syscallNumber := event.syscallNumber
  args := (argPositions event).map (Position.render keys)
  returnValue := (returnPosition event).render keys
  errno := event.errno
  durationNs := event.endNs - event.startNs
  outputs := event.outputs.map (renderOutput keys)

theorem renders_normalizeScalar (value : ℤ) (kind : Option HandleKind) :
    Renders (normalizeScalar value kind) (scalarPosition value kind).handles fun final ↦
      (scalarPosition value kind).render final := by
  cases kind with
  | none => exact renders_pure _
  | some kind =>
    unfold normalizeScalar scalarPosition
    by_cases hsentinel : value ∈ sentinelValues
    · simp only [if_pos hsentinel]
      exact renders_pure _
    · simp only [if_neg hsentinel]
      exact (renders_token kind value).map Scalar.token

theorem renders_normalizeOutput (output : RawOutput) :
    Renders (normalizeOutput output) (outputHandles output) fun final ↦
      renderOutput final output := by
  have hresources : Renders (normalizeResources output) (outputHandles output) fun final ↦
      (renderOutput final output).fdResources := by
    unfold normalizeResources outputHandles fdResourceValues renderOutput
    by_cases hfd : output.resourceKind = some "fd"
    · simp only [if_pos hfd]
      have hloop := renders_mapM (token .fd) (fun value ↦ [(.fd, value)]) _ (renders_token .fd)
        output.resourceValues
      rw [← List.map_eq_flatMap] at hloop
      exact hloop.map some
    · simp only [if_neg hfd]
      exact renders_pure none
  have hlast : ∀ fdResources, Renders
      (pure { renderOutput (fun _ ↦ []) output with fdResources := fdResources }) []
      fun _ ↦ { renderOutput (fun _ ↦ []) output with fdResources := fdResources } :=
    fun _ ↦ renders_pure _
  rw [← List.append_nil (outputHandles output)]
  exact hresources.bind hlast

theorem renders_normalizeEvent (event : RawEvent) (index : ℕ) :
    Renders (normalizeEvent event index) (eventHandles event) fun final ↦
      renderEvent final event index := by
  have hargs := renders_mapM
    (fun entry : ℤ × ℕ ↦ normalizeScalar entry.1 (argKind event.syscallName entry.2 entry.1)) _ _
    (fun entry ↦ renders_normalizeScalar entry.1 (argKind event.syscallName entry.2 entry.1))
    event.args.zipIdx
  have hreturn : Renders (normalizeReturn event) (returnPosition event).handles fun final ↦
      (returnPosition event).render final := by
    unfold normalizeReturn returnPosition
    by_cases hzero : event.returnValue ≠ 0
    · simp only [if_pos hzero]
      exact renders_normalizeScalar _ _
    · simp only [if_neg hzero]
      exact renders_pure _
  have houtputs := renders_mapM normalizeOutput outputHandles
    (fun output final ↦ renderOutput final output) renders_normalizeOutput event.outputs
  have hhandles : eventHandles event =
      (event.args.zipIdx.flatMap fun entry ↦
        (scalarPosition entry.1 (argKind event.syscallName entry.2 entry.1)).handles) ++
      ((returnPosition event).handles ++ (event.outputs.flatMap outputHandles ++ [])) := by
    rw [eventHandles, argPositions, List.flatMap_map, List.append_nil]
  have hlast : ∀ args returnValue outputs, Renders
      (pure { renderEvent (fun _ ↦ []) event index with
        args := args, returnValue := returnValue, outputs := outputs }) []
      fun _ ↦ { renderEvent (fun _ ↦ []) event index with
        args := args, returnValue := returnValue, outputs := outputs } :=
    fun _ _ _ ↦ renders_pure _
  have hevent := hargs.bind fun args ↦ hreturn.bind fun returnValue ↦
    houtputs.bind fun outputs ↦ hlast args returnValue outputs
  rw [hhandles]
  simp only [renderEvent, argPositions, List.map_map]
  exact hevent

/-- The handles of a trace, in the order of `canonicalize`. -/
def traceHandles (events : List RawEvent) : List Handle :=
  events.flatMap eventHandles

/-- The canonical events are the raw events rendered under the tables of the whole trace. -/
theorem normalizeEvents_run (events : List RawEvent) :
    ((normalizeEvents events).run {}).1 =
      events.zipIdx.map fun entry ↦
        renderEvent (tablesOf (traceHandles events)) entry.1 entry.2 := by
  have hloop := renders_mapM (fun entry : RawEvent × ℕ ↦ normalizeEvent entry.1 entry.2)
    (fun entry ↦ eventHandles entry.1) (fun entry final ↦ renderEvent final entry.1 entry.2)
    (fun entry ↦ renders_normalizeEvent entry.1 entry.2) events.zipIdx
  have hhandles : (events.zipIdx.flatMap fun entry ↦ eventHandles entry.1) =
      traceHandles events := by
    rw [traceHandles, ← List.flatMap_map (f := Prod.fst) (g := eventHandles),
      List.zipIdx_map_fst]
  rw [hhandles] at hloop
  exact (hloop {} _ represents_empty).2 _ (Extends.refl _)

/-- `canonicalize` succeeds on every valid trace. -/
theorem canonicalize_ok {rawTrace : RawTrace} (hvalid : validateRawTrace rawTrace = .ok ())
    (externalState : ExternalState) :
    ∃ trace, canonicalize rawTrace externalState = .ok trace := by
  rw [canonicalize, hvalid]
  exact ⟨_, rfl⟩

/-- `canonicalize` takes over the fields of a valid trace, with normalized events. -/
theorem eq_of_canonicalize {rawTrace : RawTrace} {externalState : ExternalState}
    {trace : CanonicalTrace} (hcanonical : canonicalize rawTrace externalState = .ok trace) :
    validateRawTrace rawTrace = .ok () ∧ trace = {
      programId := rawTrace.programId
      side := rawTrace.side
      eventCount := ((normalizeEvents rawTrace.events).run {}).1.length
      events := ((normalizeEvents rawTrace.events).run {}).1
      finalState := externalState
      processExit := rawTrace.processExit
      eventCount_eq := rfl } := by
  unfold canonicalize at hcanonical
  cases hvalid : validateRawTrace rawTrace with
  | error message =>
    rw [hvalid] at hcanonical
    cases hcanonical
  | ok value =>
    rw [hvalid] at hcanonical
    exact ⟨rfl, (Except.ok.inj hcanonical).symm⟩

/-- The events of a canonical trace are the rendered events of its raw trace. -/
theorem events_of_canonicalize {rawTrace : RawTrace} {externalState : ExternalState}
    {trace : CanonicalTrace} (hcanonical : canonicalize rawTrace externalState = .ok trace) :
    trace.events = rawTrace.events.zipIdx.map fun entry ↦
      renderEvent (tablesOf (traceHandles rawTrace.events)) entry.1 entry.2 := by
  rw [(eq_of_canonicalize hcanonical).2]
  exact normalizeEvents_run rawTrace.events

/-- A canonical trace comes from a valid raw trace and takes over its process exit. -/
theorem fields_of_canonicalize {rawTrace : RawTrace} {externalState : ExternalState}
    {trace : CanonicalTrace} (hcanonical : canonicalize rawTrace externalState = .ok trace) :
    validateRawTrace rawTrace = .ok () ∧ trace.finalState = externalState ∧
      trace.processExit = rawTrace.processExit := by
  obtain ⟨hvalid, rfl⟩ := eq_of_canonicalize hcanonical
  exact ⟨hvalid, rfl, rfl⟩

end SyzAbi.Analyzer
