import SyzAbi.Analyzer.Renaming

/-!
# Canonical events are a complete invariant modulo handle renaming

Two traces with the same canonical events differ only in the names of their handles, and the other
way round. A renaming is a partial bijection of values for each kind (`HandleRenaming`), and
`SameUpToRenaming` relates the positions of two traces through it.

From canonical events to a renaming, the partial bijection matches the values with the same number
in the tables of the two traces. From a renaming to canonical events, related positions are met in
the same order, so the tables are related and equal numbers are handed out.

One mark of an output is not a position: `normalize_outputs` writes `resource_kind` and
`resource_values` whenever the raw output is of kind `"fd"`, also with an empty list of values.
`SameMarks` says that the two traces mark the same outputs. Without it only one direction holds
(`sameUpToRenaming_not_agree`).
-/

set_option autoImplicit false
set_option relaxedAutoImplicit false

namespace SyzAbi.Analyzer

open CanonicalContext Library.FirstUse

/-! ### The two relations -/

/-- A renaming: for each kind a one-to-one correspondence of some values. -/
abbrev HandleRenaming := HandleKind → ℤ ≃. ℤ

/-- Two positions hold the same literal, or handles of one kind that the renaming relates. -/
inductive Position.Related (ρ : HandleRenaming) : Position → Position → Prop
  | literal (value : ℤ) : Related ρ (.literal value) (.literal value)
  | handle (kind : HandleKind) {value value' : ℤ} (hvalue : value' ∈ ρ kind value) :
      Related ρ (.handle kind value) (.handle kind value')

/-- Two outputs agree on their fixed fields, and the renaming relates their fd resources. -/
structure OutputsRelated (ρ : HandleRenaming) (left right : RawOutput) : Prop where
  label : left.label = right.label
  argIndex : left.argIndex = right.argIndex
  length : left.length = right.length
  sha256 : left.sha256 = right.sha256
  preview : maskedPreview left = maskedPreview right
  resources : List.Forall₂ (fun value value' ↦ value' ∈ ρ .fd value)
    (fdResourceValues left) (fdResourceValues right)

/-- Two events agree on their name and errno, and the renaming relates their positions. -/
structure EventsRelated (ρ : HandleRenaming) (left right : RawEvent) : Prop where
  name : left.syscallName = right.syscallName
  errno : left.errno = right.errno
  args : List.Forall₂ (Position.Related ρ) (argPositions left) (argPositions right)
  returnValue : (returnPosition left).Related ρ (returnPosition right)
  outputs : List.Forall₂ (OutputsRelated ρ) left.outputs right.outputs

/-- Two raw traces are the same up to one renaming of their handles. -/
def SameUpToRenaming (left right : RawTrace) : Prop :=
  ∃ ρ : HandleRenaming, List.Forall₂ (EventsRelated ρ) left.events right.events

/-- Two outputs are both of kind `"fd"`, or neither is. -/
def SameMark (left right : RawOutput) : Prop :=
  left.resourceKind = some "fd" ↔ right.resourceKind = some "fd"

/-- Two raw traces mark the same outputs as fd resources. -/
def SameMarks (left right : RawTrace) : Prop :=
  List.Forall₂ (fun event event' ↦ List.Forall₂ SameMark event.outputs event'.outputs)
    left.events right.events

/-- Two canonical events agree on the five compared fields. -/
structure CanonicalEvent.Agree (left right : CanonicalEvent) : Prop where
  name : left.syscallName = right.syscallName
  args : left.args = right.args
  returnValue : left.returnValue = right.returnValue
  errno : left.errno = right.errno
  outputs : left.outputs = right.outputs

/-- Two canonical traces agree event by event. -/
def CanonicalTrace.Agree (left right : CanonicalTrace) : Prop :=
  List.Forall₂ CanonicalEvent.Agree left.events right.events

/-! ### Pointwise relations of lists -/

section Pointwise

variable {α β γ : Type}

/-- A pointwise relation may be weakened with the knowledge where the items come from. -/
theorem forall₂_imp_of_mem {R S : α → β → Prop} {left : List α} {right : List β}
    (h : List.Forall₂ R left right)
    (himp : ∀ a ∈ left, ∀ b ∈ right, R a b → S a b) : List.Forall₂ S left right := by
  induction h with
  | nil => exact List.Forall₂.nil
  | cons hab _ ih =>
    refine List.Forall₂.cons ?_ (ih fun a ha b hb ↦ ?_)
    · exact himp _ List.mem_cons_self _ List.mem_cons_self hab
    · exact himp a (List.mem_cons_of_mem _ ha) b (List.mem_cons_of_mem _ hb)

/-- Two pointwise relations hold together. -/
theorem forall₂_both {R S : α → β → Prop} {left : List α} {right : List β}
    (hR : List.Forall₂ R left right) (hS : List.Forall₂ S left right) :
    List.Forall₂ (fun a b ↦ R a b ∧ S a b) left right := by
  induction hR with
  | nil => exact List.Forall₂.nil
  | cons hab _ ih =>
    obtain ⟨hS, hrest⟩ := List.forall₂_cons.mp hS
    exact List.Forall₂.cons ⟨hab, hS⟩ (ih hrest)

/-- Equal images of two lists are equal item by item. -/
theorem map_eq_map_iff_forall₂ {f : α → γ} {g : β → γ} {left : List α} {right : List β} :
    left.map f = right.map g ↔ List.Forall₂ (fun a b ↦ f a = g b) left right := by
  rw [← List.forall₂_eq_eq_eq, List.forall₂_map_left_iff, List.forall₂_map_right_iff]

/-- A relation that ignores the positions holds of two enumerated lists when it holds of the lists.
-/
theorem forall₂_zipIdx_iff {f : α → ℕ → γ} {g : β → ℕ → γ} {R : γ → γ → Prop}
    {S : α → β → Prop} (hrel : ∀ a b index, R (f a index) (g b index) ↔ S a b)
    (left : List α) (right : List β) (start : ℕ) :
    List.Forall₂ R ((left.zipIdx start).map fun entry ↦ f entry.1 entry.2)
        ((right.zipIdx start).map fun entry ↦ g entry.1 entry.2) ↔
      List.Forall₂ S left right := by
  induction left generalizing right start with
  | nil => cases right <;> simp
  | cons a rest ih =>
    cases right with
    | nil => simp
    | cons b rest' =>
      simp only [List.zipIdx_cons, List.map_cons, List.forall₂_cons, hrel]
      rw [ih]

end Pointwise

/-! ### From equal rendering to related positions -/

section Rendered

variable {keys keys' : KeyTables} {ρ : HandleRenaming}

/-- The renaming relates the values that carry the same number in the two tables. -/
def MatchesTables (ρ : HandleRenaming) (keys keys' : KeyTables) : Prop :=
  ∀ kind value value', value' ∈ ρ kind value ↔ value ∈ keys kind ∧ value' ∈ keys' kind ∧
    (keys kind).idxOf value = (keys' kind).idxOf value'

/-- Positions with the same canonical value are related, when their handles are in the tables. -/
theorem related_of_render_eq (hρ : MatchesTables ρ keys keys') {left right : Position}
    (hleft : ∀ handle ∈ left.handles, handle.2 ∈ keys handle.1)
    (hright : ∀ handle ∈ right.handles, handle.2 ∈ keys' handle.1)
    (hrender : left.render keys = right.render keys') : left.Related ρ right := by
  cases left with
  | literal value =>
    cases right with
    | literal value' =>
      rw [Scalar.int.inj hrender]
      exact .literal value'
    | handle kind value' => exact Scalar.noConfusion hrender
  | handle kind value =>
    cases right with
    | literal value' => exact Scalar.noConfusion hrender
    | handle kind' value' =>
      obtain ⟨rfl, hindex⟩ := tokenText_inj.mp (Scalar.token.inj hrender)
      have hmem := hleft (kind, value) (List.mem_singleton_self _)
      have hmem' := hright (kind, value') (List.mem_singleton_self _)
      exact .handle kind ((hρ kind value value').mpr ⟨hmem, hmem', hindex⟩)

theorem related_of_renderOutput_eq (hρ : MatchesTables ρ keys keys') {left right : RawOutput}
    (hleft : ∀ handle ∈ outputHandles left, handle.2 ∈ keys handle.1)
    (hright : ∀ handle ∈ outputHandles right, handle.2 ∈ keys' handle.1)
    (hrender : renderOutput keys left = renderOutput keys' right) :
    OutputsRelated ρ left right ∧ SameMark left right := by
  simp only [renderOutput, CanonicalOutput.mk.injEq] at hrender
  obtain ⟨hlabel, hargIndex, hlength, hpreview, hsha, hresources⟩ := hrender
  have hvalues : List.Forall₂ (fun value value' ↦ value' ∈ ρ .fd value)
      (fdResourceValues left) (fdResourceValues right) ∧ SameMark left right := by
    unfold SameMark
    unfold outputHandles at hleft hright
    unfold fdResourceValues at hleft hright ⊢
    by_cases hfd : left.resourceKind = some "fd"
    · by_cases hfd' : right.resourceKind = some "fd"
      · simp only [if_pos hfd, if_pos hfd', Option.some.injEq] at hresources hleft hright ⊢
        refine ⟨forall₂_imp_of_mem (map_eq_map_iff_forall₂.mp hresources) ?_, by simp [hfd, hfd']⟩
        intro value hvalue value' hvalue' htoken
        refine (hρ .fd value value').mpr ⟨?_, ?_, (tokenText_inj.mp htoken).2⟩
        · exact hleft (.fd, value) (List.mem_map_of_mem hvalue)
        · exact hright (.fd, value') (List.mem_map_of_mem hvalue')
      · rw [if_pos hfd, if_neg hfd'] at hresources
        exact absurd hresources (Option.some_ne_none _)
    · by_cases hfd' : right.resourceKind = some "fd"
      · rw [if_neg hfd, if_pos hfd'] at hresources
        exact absurd hresources.symm (Option.some_ne_none _)
      · simp only [if_neg hfd, if_neg hfd']
        exact ⟨List.Forall₂.nil, by simp [hfd, hfd']⟩
  exact ⟨⟨hlabel, hargIndex, hlength, hsha, hpreview, hvalues.1⟩, hvalues.2⟩

theorem related_of_renderEvent_agree (hρ : MatchesTables ρ keys keys') {left right : RawEvent}
    (hleft : ∀ handle ∈ eventHandles left, handle.2 ∈ keys handle.1)
    (hright : ∀ handle ∈ eventHandles right, handle.2 ∈ keys' handle.1)
    (hagree : (renderEvent keys left 0).Agree (renderEvent keys' right 0)) :
    EventsRelated ρ left right ∧ List.Forall₂ SameMark left.outputs right.outputs := by
  obtain ⟨hname, hargs, hreturn, herrno, houtputs⟩ := hagree
  simp only [eventHandles, List.forall_mem_append, List.forall_mem_flatMap] at hleft hright
  have hrelated : List.Forall₂ (fun output output' ↦
      OutputsRelated ρ output output' ∧ SameMark output output') left.outputs right.outputs := by
    refine forall₂_imp_of_mem (map_eq_map_iff_forall₂.mp houtputs) ?_
    intro output houtput output' houtput' hrender
    exact related_of_renderOutput_eq hρ (hleft.2.2 output houtput) (hright.2.2 output' houtput')
      hrender
  refine ⟨⟨hname, herrno, ?_, ?_, hrelated.imp fun _ _ h ↦ h.1⟩, hrelated.imp fun _ _ h ↦ h.2⟩
  · refine forall₂_imp_of_mem (map_eq_map_iff_forall₂.mp hargs) ?_
    intro position hposition position' hposition' hrender
    exact related_of_render_eq hρ (hleft.1 position hposition) (hright.1 position' hposition')
      hrender
  · exact related_of_render_eq hρ hleft.2.1 hright.2.1 hreturn

end Rendered

/-! ### From a renaming to equal rendering -/

section Renamed

variable {keys keys' : KeyTables} {ρ : HandleRenaming}

/-- Two handles of one kind that the renaming relates. -/
def HandlesRelated (ρ : HandleRenaming) (left right : Handle) : Prop :=
  left.1 = right.1 ∧ right.2 ∈ ρ left.1 left.2

/-- The renaming relates the tables of each kind position by position. -/
def TablesRelated (ρ : HandleRenaming) (keys keys' : KeyTables) : Prop :=
  ∀ kind, List.Forall₂ (fun value value' ↦ value' ∈ ρ kind value) (keys kind) (keys' kind)

theorem Position.Related.handles {left right : Position} (hrelated : left.Related ρ right) :
    List.Forall₂ (HandlesRelated ρ) left.handles right.handles := by
  cases hrelated with
  | literal value => exact List.Forall₂.nil
  | handle kind hvalue => exact List.Forall₂.cons ⟨rfl, hvalue⟩ List.Forall₂.nil

theorem OutputsRelated.handles {left right : RawOutput} (hrelated : OutputsRelated ρ left right) :
    List.Forall₂ (HandlesRelated ρ) (outputHandles left) (outputHandles right) := by
  unfold outputHandles
  rw [List.forall₂_map_left_iff, List.forall₂_map_right_iff]
  exact hrelated.resources.imp fun _ _ hvalue ↦ ⟨rfl, hvalue⟩

theorem EventsRelated.handles {left right : RawEvent} (hrelated : EventsRelated ρ left right) :
    List.Forall₂ (HandlesRelated ρ) (eventHandles left) (eventHandles right) := by
  unfold eventHandles
  refine List.rel_append ?_ (List.rel_append hrelated.returnValue.handles ?_)
  · exact List.rel_flatMap hrelated.args fun _ _ hposition ↦ hposition.handles
  · exact List.rel_flatMap hrelated.outputs fun _ _ houtput ↦ houtput.handles

/-- Related handles leave related tables. -/
theorem tablesRelated_tablesOf {handles handles' : List Handle}
    (hrelated : List.Forall₂ (HandlesRelated ρ) handles handles') :
    TablesRelated ρ (tablesOf handles) (tablesOf handles') := by
  intro kind
  refine forall₂_noteAll ?_ List.Forall₂.nil
  refine List.rel_filterMap ?_ hrelated
  rintro ⟨first, value⟩ ⟨second, value'⟩ ⟨hkind, hvalue⟩
  change first = second at hkind
  subst hkind
  by_cases h : first = kind
  · subst h
    simpa using hvalue
  · simp [h]

theorem Position.Related.render_eq (htables : TablesRelated ρ keys keys') {left right : Position}
    (hrelated : left.Related ρ right) : left.render keys = right.render keys' := by
  cases hrelated with
  | literal value => rfl
  | handle kind hvalue =>
    change Scalar.token (tokenText kind _) = Scalar.token (tokenText kind _)
    rw [idxOf_eq_of_forall₂ (htables kind) hvalue]

theorem OutputsRelated.render_eq (htables : TablesRelated ρ keys keys') {left right : RawOutput}
    (hrelated : OutputsRelated ρ left right) (hmark : SameMark left right) :
    renderOutput keys left = renderOutput keys' right := by
  have hresources : (renderOutput keys left).fdResources =
      (renderOutput keys' right).fdResources := by
    have hvalues := hrelated.resources
    unfold fdResourceValues at hvalues
    unfold renderOutput
    by_cases hfd : left.resourceKind = some "fd"
    · have hfd' := hmark.mp hfd
      simp only [if_pos hfd, if_pos hfd'] at hvalues ⊢
      refine congrArg some (map_eq_map_iff_forall₂.mpr (hvalues.imp fun _ _ hvalue ↦ ?_))
      rw [idxOf_eq_of_forall₂ (htables .fd) hvalue]
    · have hfd' : ¬ right.resourceKind = some "fd" := fun h ↦ hfd (hmark.mpr h)
      simp only [if_neg hfd, if_neg hfd']
  simp only [renderOutput, CanonicalOutput.mk.injEq] at hresources ⊢
  exact ⟨hrelated.label, hrelated.argIndex, hrelated.length, hrelated.preview, hrelated.sha256,
    hresources⟩

theorem EventsRelated.agree (htables : TablesRelated ρ keys keys') {left right : RawEvent}
    (hrelated : EventsRelated ρ left right)
    (hmarks : List.Forall₂ SameMark left.outputs right.outputs) :
    (renderEvent keys left 0).Agree (renderEvent keys' right 0) where
  name := hrelated.name
  args := map_eq_map_iff_forall₂.mpr (hrelated.args.imp fun _ _ h ↦ h.render_eq htables)
  returnValue := hrelated.returnValue.render_eq htables
  errno := hrelated.errno
  outputs := by
    refine map_eq_map_iff_forall₂.mpr ?_
    exact (forall₂_both hrelated.outputs hmarks).imp fun _ _ h ↦ h.1.render_eq htables h.2

end Renamed

/-! ### The invariant -/

/-- The rendered events of two traces agree exactly when the traces are the same up to renaming and
mark the same outputs. -/
theorem rendered_agree_iff (left right : RawTrace) :
    List.Forall₂ (fun event event' ↦
        (renderEvent (tablesOf (traceHandles left.events)) event 0).Agree
          (renderEvent (tablesOf (traceHandles right.events)) event' 0))
        left.events right.events ↔
      SameUpToRenaming left right ∧ SameMarks left right := by
  constructor
  · intro hagree
    let ρ : HandleRenaming := fun kind ↦
      matching _ _ (nodup_tablesOf (traceHandles left.events) kind)
        (nodup_tablesOf (traceHandles right.events) kind)
    have hρ : MatchesTables ρ (tablesOf (traceHandles left.events))
        (tablesOf (traceHandles right.events)) := fun kind value value' ↦
      mem_matching _ _ value value'
    have hrelated : List.Forall₂ (fun event event' ↦ EventsRelated ρ event event' ∧
        List.Forall₂ SameMark event.outputs event'.outputs) left.events right.events := by
      refine forall₂_imp_of_mem hagree ?_
      intro event hevent event' hevent' h
      refine related_of_renderEvent_agree hρ (fun handle hhandle ↦ ?_) (fun handle hhandle ↦ ?_) h
      · exact mem_tablesOf (List.mem_flatMap.mpr ⟨event, hevent, hhandle⟩)
      · exact mem_tablesOf (List.mem_flatMap.mpr ⟨event', hevent', hhandle⟩)
    exact ⟨⟨ρ, hrelated.imp fun _ _ h ↦ h.1⟩, hrelated.imp fun _ _ h ↦ h.2⟩
  · rintro ⟨⟨ρ, hrelated⟩, hmarks⟩
    have hhandles : List.Forall₂ (HandlesRelated ρ) (traceHandles left.events)
        (traceHandles right.events) := List.rel_flatMap hrelated fun _ _ h ↦ h.handles
    exact (forall₂_both hrelated hmarks).imp fun _ _ h ↦
      h.1.agree (tablesRelated_tablesOf hhandles) h.2

/-- The canonical traces of two raw traces agree event by event exactly when the raw traces are the
same up to renaming and mark the same outputs. -/
theorem agree_iff_of_canonicalize {left right : RawTrace} {leftState rightState : ExternalState}
    {canonicalLeft canonicalRight : CanonicalTrace}
    (hleft : canonicalize left leftState = .ok canonicalLeft)
    (hright : canonicalize right rightState = .ok canonicalRight) :
    canonicalLeft.Agree canonicalRight ↔ SameUpToRenaming left right ∧ SameMarks left right := by
  have heventsLeft := events_of_canonicalize hleft
  have heventsRight := events_of_canonicalize hright
  have hindex : ∀ (event event' : RawEvent) (index : ℕ),
      (renderEvent (tablesOf (traceHandles left.events)) event index).Agree
          (renderEvent (tablesOf (traceHandles right.events)) event' index) ↔
        (renderEvent (tablesOf (traceHandles left.events)) event 0).Agree
          (renderEvent (tablesOf (traceHandles right.events)) event' 0) :=
    fun _ _ _ ↦ ⟨fun h ↦ ⟨h.1, h.2, h.3, h.4, h.5⟩, fun h ↦ ⟨h.1, h.2, h.3, h.4, h.5⟩⟩
  rw [CanonicalTrace.Agree, heventsLeft, heventsRight, forall₂_zipIdx_iff hindex,
    rendered_agree_iff]

/-- Canonicalization succeeds on two valid traces, and the canonical traces agree event by event
exactly when the raw traces are the same up to a renaming of handles and mark the same outputs as
fd resources. -/
theorem canonicalize_agree_iff {left right : RawTrace} (hleft : validateRawTrace left = .ok ())
    (hright : validateRawTrace right = .ok ()) (leftState rightState : ExternalState) :
    ∃ canonicalLeft canonicalRight, canonicalize left leftState = .ok canonicalLeft ∧
      canonicalize right rightState = .ok canonicalRight ∧
      (canonicalLeft.Agree canonicalRight ↔
        SameUpToRenaming left right ∧ SameMarks left right) := by
  obtain ⟨canonicalLeft, hcanonicalLeft⟩ := canonicalize_ok hleft leftState
  obtain ⟨canonicalRight, hcanonicalRight⟩ := canonicalize_ok hright rightState
  exact ⟨canonicalLeft, canonicalRight, hcanonicalLeft, hcanonicalRight,
    agree_iff_of_canonicalize hcanonicalLeft hcanonicalRight⟩

/-- A trace that opens a file, reads five bytes of it and closes it, with a descriptor and with the
address of its buffers. -/
def openedTrace (fd address : ℤ) : RawTrace where
  programId := "p"
  side := "reference"
  runId := "r"
  status := "ok"
  events := [
    { eventIndex := 0
      syscallName := "openat"
      syscallNumber := 257
      args := [-100, address, 0, 0]
      returnValue := fd
      errno := 0
      startNs := 0
      endNs := 1
      outputs := [] },
    { eventIndex := 1
      syscallName := "read"
      syscallNumber := 0
      args := [fd, address, 64]
      returnValue := 5
      errno := 0
      startNs := 2
      endNs := 3
      outputs := [{
        label := "buf"
        argIndex := 1
        length := 5
        previewHex := "68656c6c6f"
        sha256 := "2cf24dba5fb0a30e26e83b2ac5b9e29e1b161e5c1fa7425e73043362938b9824"
        resourceKind := none }] },
    { eventIndex := 2
      syscallName := "close"
      syscallNumber := 3
      args := [fd]
      returnValue := 0
      errno := 0
      startNs := 4
      endNs := 5
      outputs := [] }]
  processExit := { status := "ok", exitCode := some 0, timedOut := false }

/-- The descriptor 3 and the address 4096 are renamed to 7 and 8192. -/
theorem sameUpToRenaming_openedTrace :
    SameUpToRenaming (openedTrace 3 4096) (openedTrace 7 8192) := by
  have hfd : (7 : ℤ) ∈ PEquiv.single (3 : ℤ) (7 : ℤ) 3 := PEquiv.mem_single 3 7
  have haddr : (8192 : ℤ) ∈ PEquiv.single (4096 : ℤ) (8192 : ℤ) 4096 := PEquiv.mem_single 4096 8192
  refine ⟨fun kind ↦ match kind with
    | .fd => PEquiv.single 3 7
    | .addr => PEquiv.single 4096 8192
    | _ => ⊥, ?_⟩
  refine .cons ⟨rfl, rfl, ?_, .handle .fd hfd, .nil⟩ (.cons ⟨rfl, rfl, ?_, .literal 5, ?_⟩
    (.cons ⟨rfl, rfl, .cons (.handle .fd hfd) .nil, .literal 0, .nil⟩ .nil))
  · exact .cons (.literal (-100)) (.cons (.handle .addr haddr)
      (.cons (.literal 0) (.cons (.literal 0) .nil)))
  · exact .cons (.handle .fd hfd) (.cons (.handle .addr haddr) (.cons (.literal 64) .nil))
  · exact .cons ⟨rfl, rfl, rfl, rfl, rfl, .nil⟩ .nil

theorem canonicalize_agree_iff_openedTrace :
    ∃ canonicalLeft canonicalRight,
      canonicalize (openedTrace 3 4096) ⟨[], false, none⟩ = .ok canonicalLeft ∧
      canonicalize (openedTrace 7 8192) ⟨[], false, none⟩ = .ok canonicalRight ∧
      canonicalLeft.Agree canonicalRight := by
  obtain ⟨canonicalLeft, canonicalRight, hleft, hright, hiff⟩ := canonicalize_agree_iff
    (show validateRawTrace (openedTrace 3 4096) = .ok () from rfl)
    (show validateRawTrace (openedTrace 7 8192) = .ok () from rfl) ⟨[], false, none⟩
    ⟨[], false, none⟩
  have hmarks : SameMarks (openedTrace 3 4096) (openedTrace 7 8192) :=
    .cons .nil (.cons (.cons Iff.rfl .nil) (.cons .nil .nil))
  exact ⟨canonicalLeft, canonicalRight, hleft, hright,
    hiff.mpr ⟨sameUpToRenaming_openedTrace, hmarks⟩⟩

/-- A trace of one `pipe2` call whose probed output is of the given kind, without values. -/
def probedTrace (resourceKind : Option String) : RawTrace where
  programId := "p"
  side := "reference"
  runId := "r"
  status := "ok"
  events := [{
    eventIndex := 0
    syscallName := "pipe2"
    syscallNumber := 293
    args := [4096, 0]
    returnValue := 0
    errno := 0
    startNs := 0
    endNs := 1
    outputs := [{
      label := "pipe"
      argIndex := 0
      length := 8
      previewHex := ""
      sha256 := ""
      resourceKind := resourceKind }] }]
  processExit := { status := "ok", exitCode := some 0, timedOut := false }

/-- The identity renaming relates the two traces, but only one canonical output has the key
`resource_kind`. -/
theorem sameUpToRenaming_not_agree :
    ∃ canonicalLeft canonicalRight,
      validateRawTrace (probedTrace none) = .ok () ∧
      validateRawTrace (probedTrace (some "fd")) = .ok () ∧
      canonicalize (probedTrace none) ⟨[], false, none⟩ = .ok canonicalLeft ∧
      canonicalize (probedTrace (some "fd")) ⟨[], false, none⟩ = .ok canonicalRight ∧
      ¬ (canonicalLeft.Agree canonicalRight ↔
        SameUpToRenaming (probedTrace none) (probedTrace (some "fd"))) := by
  have hvalid : ∀ kind, validateRawTrace (probedTrace kind) = .ok () := fun _ ↦ rfl
  obtain ⟨canonicalLeft, hleft⟩ := canonicalize_ok (hvalid none) ⟨[], false, none⟩
  obtain ⟨canonicalRight, hright⟩ := canonicalize_ok (hvalid (some "fd")) ⟨[], false, none⟩
  refine ⟨canonicalLeft, canonicalRight, hvalid _, hvalid _, hleft, hright, ?_⟩
  have hrelated : SameUpToRenaming (probedTrace none) (probedTrace (some "fd")) := by
    refine ⟨fun _ ↦ PEquiv.refl ℤ, List.Forall₂.cons ?_ List.Forall₂.nil⟩
    refine ⟨rfl, rfl, ?_, .literal 0, List.Forall₂.cons ?_ List.Forall₂.nil⟩
    · exact List.Forall₂.cons (.handle .addr rfl)
        (List.Forall₂.cons (.literal 0) List.Forall₂.nil)
    · exact ⟨rfl, rfl, rfl, rfl, rfl, List.Forall₂.nil⟩
  rw [agree_iff_of_canonicalize hleft hright]
  intro hiff
  have hmarks := (hiff.mpr hrelated).2
  simp [SameMarks, SameMark, probedTrace] at hmarks

end SyzAbi.Analyzer
