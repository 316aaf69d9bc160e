import SyzAbi.Agent.LinuxEvent
import SyzAbi.Orchestrator.CandidateBatch

/-!
# Events read back

The line of an event is complete, and the code that reads it back finds in it what the tracer was
given. A printed text has three properties that matter here, and `Printed` collects them with rules
for the pieces of an event: it reads as a value, it is printable, and its length has a bound. So the
buffer of the tracer never cuts a line off (`emitEvent_eq`), a file of lines is read back line by
line (`parseEvents_lines`), and each value decodes to the event record (`decodeEvent_eventValue`).
-/

set_option autoImplicit false
set_option relaxedAutoImplicit false

namespace SyzAbi.Agent

open Analyzer Orchestrator Library.Json

/-! ### Texts -/

theorem pyText_ofString (text : String) : pyText (PyStr.ofString text) = text := by
  have hchars : (PyStr.ofString text).map Char.ofNat = text.toList := by
    rw [PyStr.ofString, List.map_map]
    conv_rhs => rw [← List.map_id text.toList]
    exact List.map_congr_left fun c _ ↦ Char.ofNat_toNat c
  rw [pyText, hchars, String.ofList_toList]

@[simp] theorem ofString_inj {a b : String} : PyStr.ofString a = PyStr.ofString b ↔ a = b := by
  constructor
  · intro h
    rw [← pyText_ofString a, h, pyText_ofString]
  · intro h
    rw [h]

theorem isValidChar_of_mem_ofString {text : String} : ∀ c ∈ PyStr.ofString text, c.isValidChar := by
  intro c hc
  obtain ⟨char, -, rfl⟩ := List.mem_map.mp hc
  exact char.valid

theorem isIdentifierChar_iff {c : ℕ} :
    isIdentifierChar c = true ↔ 48 ≤ c ∧ c ≤ 57 ∨ 65 ≤ c ∧ c ≤ 90 ∨ c = 95 ∨ 97 ≤ c ∧ c ≤ 122 := by
  simp [isIdentifierChar, or_assoc]

theorem plain_of_identifier {text : Text} (hidentifier : ∀ c ∈ text, isIdentifierChar c = true) :
    Plain text := by
  intro c hc
  have hrange := isIdentifierChar_iff.mp (hidentifier c hc)
  omega

theorem ShortName.plain (name : ShortName) : Plain (PyStr.ofString name.text) :=
  plain_of_identifier name.identifier

theorem Digest.plain (digest : Digest) (bytes : List UInt8) : Plain (digest.hex bytes) :=
  plain_of_identifier (digest.isIdentifier bytes)

/-- A plain text is printed as it is. -/
theorem jsonString_of_plain {text : Text} (hplain : Plain text) :
    jsonString text = quoted text := by
  have hchars : text.flatMap jsonChar = text := by
    induction text with
    | nil => rfl
    | cons c text ih =>
      obtain ⟨hlow, hquote, hbackslash⟩ := hplain c List.mem_cons_self
      have hchar : jsonChar c = [c] := by
        rw [jsonChar, if_neg hbackslash, if_neg hquote, if_neg (by omega), if_neg (by omega),
          if_neg (by omega), if_neg (by omega)]
      rw [List.flatMap_cons, hchar, ih fun d hd ↦ hplain d (List.mem_cons_of_mem c hd)]
      rfl
  rw [jsonString, hchars, quoted]

/-! ### Previews -/

theorem isIdentifierChar_hexChar {n : ℕ} (hlt : n < 16) : isIdentifierChar (hexChar n) = true := by
  rw [isIdentifierChar_iff, hexChar]
  split_ifs <;> omega

theorem isIdentifierChar_hexPreview {bytes : List UInt8} {outSize c : ℕ}
    (hc : c ∈ hexPreview bytes outSize) : isIdentifierChar c = true := by
  obtain ⟨byte, _, hbyte⟩ := List.mem_flatMap.mp hc
  have hlt : byte.toNat < 256 := byte.toNat_lt
  simp only [hexByte, List.mem_cons, List.not_mem_nil, or_false] at hbyte
  rcases hbyte with rfl | rfl
  · exact isIdentifierChar_hexChar (by omega)
  · exact isIdentifierChar_hexChar (by omega)

theorem length_hexPreview (bytes : List UInt8) (outSize : ℕ) :
    (hexPreview bytes outSize).length = 2 * min ((outSize - 1) / 2) bytes.length := by
  have hpairs : ∀ list : List UInt8, (list.flatMap hexByte).length = 2 * list.length := by
    intro list
    induction list with
    | nil => rfl
    | cons byte list ih =>
      rw [List.flatMap_cons, List.length_append, ih, List.length_cons]
      simp only [hexByte, List.length_cons, List.length_nil]
      omega
  rw [hexPreview, hpairs, List.length_take]

theorem plain_hexPreview (bytes : List UInt8) (outSize : ℕ) : Plain (hexPreview bytes outSize) :=
  plain_of_identifier fun _ hc ↦ isIdentifierChar_hexPreview hc

/-! ### Printable texts -/

/-- Printable ASCII. -/
def Printable (text : Text) : Prop := ∀ c ∈ text, 32 ≤ c ∧ c ≤ 126

instance (text : Text) : Decidable (Printable text) :=
  inferInstanceAs (Decidable (∀ c ∈ text, 32 ≤ c ∧ c ≤ 126))

theorem Printable.append {a b : Text} (ha : Printable a) (hb : Printable b) :
    Printable (a ++ b) := by
  intro c hc
  rcases List.mem_append.mp hc with hc | hc
  · exact ha c hc
  · exact hb c hc

theorem Printable.cons {c : ℕ} {text : Text} (hc : 32 ≤ c ∧ c ≤ 126) (htext : Printable text) :
    Printable (c :: text) := by
  intro d hd
  rcases List.mem_cons.mp hd with rfl | hd
  · exact hc
  · exact htext d hd

theorem printable_nil : Printable [] := by
  intro c hc
  cases hc

theorem printable_of_identifier {text : Text}
    (hidentifier : ∀ c ∈ text, isIdentifierChar c = true) : Printable text := by
  intro c hc
  have hrange := isIdentifierChar_iff.mp (hidentifier c hc)
  omega

theorem printable_decimal (n : ℕ) : Printable (decimal n) := by
  intro c hc
  have hdigit := isDigit_iff.mp (isDigit_of_mem_decimal hc)
  omega

theorem printable_decimalInt (value : ℤ) : Printable (decimalInt value) := by
  rw [decimalInt]
  split_ifs
  · exact Printable.cons (by decide) (printable_decimal _)
  · exact printable_decimal _

theorem Printable.quoted {text : Text} (htext : Printable text) : Printable (quoted text) :=
  Printable.cons (by decide) (htext.append (by decide))

theorem printable_commaJoin {texts : List Text} (htexts : ∀ text ∈ texts, Printable text) :
    Printable (commaJoin texts) := by
  induction texts with
  | nil => exact printable_nil
  | cons text rest ih =>
    have hrest := ih fun t ht ↦ htexts t (List.mem_cons_of_mem text ht)
    have htext := htexts text List.mem_cons_self
    cases rest with
    | nil => exact htext
    | cons next more =>
      rw [commaJoin_cons_cons]
      exact htext.append (Printable.cons (by decide) hrest)

/-! ### Printed texts -/

theorem length_commaJoin_le (texts : List Text) :
    (commaJoin texts).length ≤ (texts.map List.length).sum + texts.length := by
  induction texts with
  | nil => simp [commaJoin]
  | cons text rest ih =>
    cases rest with
    | nil => simp [commaJoin]
    | cons next more =>
      rw [commaJoin_cons_cons, List.length_append, List.length_cons, List.map_cons, List.sum_cons,
        List.length_cons]
      omega

/-- The text of a value: it reads as the value, is printable, and is not longer than the bound. -/
structure Printed (text : Text) (value : Value) (bound : ℕ) : Prop where
  reads : Reads text value
  printable : Printable text
  length_le : text.length ≤ bound

theorem Printed.mono {text : Text} {value : Value} {bound larger : ℕ}
    (hprinted : Printed text value bound) (hle : bound ≤ larger) : Printed text value larger :=
  ⟨hprinted.reads, hprinted.printable, hprinted.length_le.trans hle⟩

theorem length_decimal_nat {n : ℕ} (hlt : n < 2 ^ 64) : (decimal n).length ≤ 20 :=
  length_decimal_le (lt_trans hlt (by norm_num)) (by norm_num)

theorem length_decimalInt {value : ℤ} (hlow : -2 ^ 63 ≤ value) (hhigh : value < 2 ^ 63) :
    (decimalInt value).length ≤ 20 := by
  have hdecimal : (decimal value.natAbs).length ≤ 19 :=
    length_decimal_le (by omega) (by norm_num)
  rw [decimalInt]
  split_ifs
  · rw [List.length_cons]
    omega
  · omega

theorem Printed.natural {n : ℕ} (hlt : n < 2 ^ 64) : Printed (decimal n) (.int n) 20 :=
  ⟨Reads.natural n, printable_decimal n, length_decimal_nat hlt⟩

theorem Printed.int64 (value : Int64) : Printed (decimalInt value.toInt) (.int value.toInt) 20 :=
  ⟨Reads.integer _, printable_decimalInt _, length_decimalInt value.le_toInt value.toInt_lt⟩

theorem Printed.int32 (value : Int32) :
    Printed (decimalInt value.toInt) (.int value.toInt) 20 := by
  have hlow := value.le_toInt
  have hhigh := value.toInt_lt
  exact ⟨Reads.integer _, printable_decimalInt _, length_decimalInt (by omega) (by omega)⟩

/-- A string of identifier characters, in quotes. -/
theorem Printed.string {text : Text} (bound : ℕ)
    (hidentifier : ∀ c ∈ text, isIdentifierChar c = true) (hle : text.length ≤ bound) :
    Printed (quoted text) (.str text) (bound + 2) := by
  refine ⟨Reads.quoted (plain_of_identifier hidentifier),
    (printable_of_identifier hidentifier).quoted, ?_⟩
  simp only [quoted, List.length_append, List.length_cons, List.length_nil]
  omega

theorem Printed.name (name : ShortName) :
    Printed (quoted (PyStr.ofString name.text)) (.str (PyStr.ofString name.text)) 66 :=
  Printed.string 64 name.identifier name.short

theorem Printed.digest (digest : Digest) (bytes : List UInt8) :
    Printed (quoted (digest.hex bytes)) (.str (digest.hex bytes)) 66 :=
  Printed.string 64 (digest.isIdentifier bytes) (digest.length_eq bytes).le

/-- The preview fits into its buffer of 8192 characters. -/
theorem Printed.preview (bytes : List UInt8) :
    Printed (quoted (hexPreview bytes 8192)) (.str (hexPreview bytes 8192)) 8192 := by
  refine Printed.string 8190 (fun _ hc ↦ isIdentifierChar_hexPreview hc) ?_
  rw [length_hexPreview]
  omega

theorem Printed.ofFalse : Printed (PyStr.ofString "false") (.bool false) 5 :=
  ⟨Reads.ofFalse, by decide, by decide⟩

/-- An array whose items have a common bound. -/
theorem Printed.array {α : Type} {print : α → Text} {value : α → Value} {bound : ℕ}
    (items : List α) (count : ℕ) (hcount : items.length ≤ count)
    (hprinted : ∀ item ∈ items, Printed (print item) (value item) bound) :
    Printed (arrayText (items.map print)) (.arr (items.map value)) (count * (bound + 1) + 2) := by
  refine ⟨Reads.array ?_, ?_, ?_⟩
  · rw [List.forall₂_map_left_iff, List.forall₂_map_right_iff, List.forall₂_same]
    exact fun item hitem ↦ (hprinted item hitem).reads
  · refine Printable.append (Printable.cons (by decide) (printable_commaJoin ?_)) (by decide)
    intro text htext
    obtain ⟨item, hitem, rfl⟩ := List.mem_map.mp htext
    exact (hprinted item hitem).printable
  · have hjoin := length_commaJoin_le (items.map print)
    have hsum := List.sum_le_card_nsmul ((items.map print).map List.length) bound (by
      intro length hlength
      obtain ⟨text, htext, rfl⟩ := List.mem_map.mp hlength
      obtain ⟨item, hitem, rfl⟩ := List.mem_map.mp htext
      exact (hprinted item hitem).length_le)
    have hmul : items.length * (bound + 1) ≤ count * (bound + 1) := Nat.mul_le_mul_right _ hcount
    simp only [List.length_map, smul_eq_mul] at hjoin hsum
    simp only [arrayText, List.length_append, List.length_cons, List.length_nil]
    rw [Nat.mul_add, Nat.mul_one] at hmul
    omega

theorem Printed.integers (values : List Int64) (count : ℕ) (hcount : values.length ≤ count) :
    Printed (arrayText (values.map fun value ↦ decimalInt value.toInt))
      (.arr (values.map fun value ↦ .int value.toInt)) (count * 21 + 2) :=
  Printed.array values count hcount fun value _ ↦ Printed.int64 value

/-- Members of an object whose values are printed. The keys have at most 15 characters. -/
inductive PrintedMembers : List Text → List (Text × Value) → ℕ → Prop
  | nil : PrintedMembers [] [] 0
  | cons {key : String} {text : Text} {value : Value} {bound total : ℕ} {texts : List Text}
      {members : List (Text × Value)} (hprinted : Printed text value bound)
      (hkey : (PyStr.ofString key).all isIdentifierChar = true ∧ (PyStr.ofString key).length ≤ 15)
      (hrest : PrintedMembers texts members total) :
      PrintedMembers (member key text :: texts) ((PyStr.ofString key, value) :: members)
        (bound + 19 + total)

theorem PrintedMembers.reads {texts : List Text} {members : List (Text × Value)} {total : ℕ}
    (hmembers : PrintedMembers texts members total) : List.Forall₂ ReadsMember texts members := by
  induction hmembers with
  | nil => exact .nil
  | cons hprinted hkey _ ih =>
    refine .cons ⟨plain_of_identifier (List.all_eq_true.mp hkey.1), _, rfl, hprinted.reads⟩ ih

theorem PrintedMembers.printable {texts : List Text} {members : List (Text × Value)} {total : ℕ}
    (hmembers : PrintedMembers texts members total) : ∀ text ∈ texts, Printable text := by
  induction hmembers with
  | nil =>
    intro text htext
    cases htext
  | cons hprinted hkey _ ih =>
    intro text htext
    rcases List.mem_cons.mp htext with rfl | htext
    · exact (printable_of_identifier (List.all_eq_true.mp hkey.1)).quoted.append
        (Printable.cons (by decide) hprinted.printable)
    · exact ih text htext

theorem PrintedMembers.length_le {texts : List Text} {members : List (Text × Value)} {total : ℕ}
    (hmembers : PrintedMembers texts members total) :
    (texts.map List.length).sum + texts.length ≤ total := by
  induction hmembers with
  | nil => simp
  | cons hprinted hkey _ ih =>
    have hlength := hprinted.length_le
    have hshort := hkey.2
    simp only [List.map_cons, List.sum_cons, List.length_cons, member, memberText, quoted,
      List.length_append, List.length_nil]
    omega

theorem Printed.object {texts : List Text} {members : List (Text × Value)} {total : ℕ}
    (hmembers : PrintedMembers texts members total) :
    Printed (objectText texts) (.obj (setMembers [] members)) (total + 2) := by
  refine ⟨Reads.object hmembers.reads, ?_, ?_⟩
  · exact Printable.append
      (Printable.cons (by decide) (printable_commaJoin hmembers.printable)) (by decide)
  · have hjoin := length_commaJoin_le texts
    have htotal := hmembers.length_le
    simp only [objectText, List.length_append, List.length_cons, List.length_nil]
    omega

/-! ### Values -/

/-- The object that the text of an output reads as. -/
def outputValue (env : TracerEnvironment) (probe : OutputProbe) : Value :=
  .obj (setMembers [] (
    [(PyStr.ofString "label", .str (PyStr.ofString probe.label.text)),
     (PyStr.ofString "arg_index", .int probe.argIndex.val),
     (PyStr.ofString "length", .int probe.bytes.length),
     (PyStr.ofString "preview_hex", .str (probePreview env probe)),
     (PyStr.ofString "sha256", .str (env.digest.hex (probedBytes env.platform probe)))] ++
    if probe.resourceKindFd then
      [(PyStr.ofString "resource_kind", .str (PyStr.ofString "fd")),
       (PyStr.ofString "resource_values", .arr (probe.resourceValues.map fun value ↦
         .int value.toInt))]
    else []))

/-- The object that the text of an event reads as. -/
def eventValue (env : TracerEnvironment) (event : Event) : Value :=
  .obj (setMembers []
    [(PyStr.ofString "event_index", .int event.call.callIndex.toInt),
     (PyStr.ofString "side", .str (PyStr.ofString env.side.text)),
     (PyStr.ofString "syscall_name", .str (PyStr.ofString event.call.name.text)),
     (PyStr.ofString "syscall_number", .int event.call.number.toInt),
     (PyStr.ofString "args", .arr (event.call.args.toList.map fun arg ↦ .int arg.toInt)),
     (PyStr.ofString "return_value", .int event.tracedRet.toInt),
     (PyStr.ofString "errno", .int event.tracedErrno.toInt),
     (PyStr.ofString "start_ns", .int event.times.startNs.toNat),
     (PyStr.ofString "end_ns", .int event.times.endNs.toNat),
     (PyStr.ofString "timed_out", .bool false),
     (PyStr.ofString "outputs", .arr (event.probes.map (outputValue env)))])

theorem printed_outputText (env : TracerEnvironment) (probe : OutputProbe) :
    Printed (outputText env probe) (outputValue env probe) 8600 := by
  have hpreview := Printed.preview ((probedBytes env.platform probe).take
    (safeProbeLength env.previewBytes probe.bytes.length))
  have hdigest := Printed.digest env.digest (probedBytes env.platform probe)
  have hindex : Printed (decimal probe.argIndex.val) (.int probe.argIndex.val) 20 :=
    Printed.natural (by omega)
  rw [outputText, outputValue, jsonString_of_plain probe.label.plain, probePreview,
    jsonString_of_plain (plain_hexPreview _ _), jsonString_of_plain (env.digest.plain _),
    jsonString_of_plain (plain_of_identifier (by decide) : Plain (PyStr.ofString "fd"))]
  split_ifs
  · refine (Printed.object (.cons (.name probe.label) (by decide) (.cons hindex (by decide)
      (.cons (.natural probe.bytes_lt) (by decide) (.cons hpreview (by decide)
        (.cons hdigest (by decide) (.cons (.string 2 (by decide) (by decide)) (by decide)
          (.cons (.integers probe.resourceValues 2 probe.resourceValues_le) (by decide)
            .nil)))))))).mono ?_
    norm_num
  · refine (Printed.object (.cons (.name probe.label) (by decide) (.cons hindex (by decide)
      (.cons (.natural probe.bytes_lt) (by decide) (.cons hpreview (by decide)
        (.cons hdigest (by decide) .nil)))))).mono ?_
    norm_num

/-- The text of an event: it reads as the value of the event, and it is short. -/
theorem printed_eventText (env : TracerEnvironment) (event : Event) :
    Printed (eventText env event) (eventValue env event) 30000 := by
  have houtputs := Printed.array event.probes 3 event.probes_le
    fun probe _ ↦ printed_outputText env probe
  have hargs := Printed.integers event.call.args.toList 6 le_rfl
  rw [eventText, eventValue, jsonString_of_plain env.side.plain,
    jsonString_of_plain event.call.name.plain]
  refine (Printed.object (.cons (.int64 event.call.callIndex) (by decide)
    (.cons (.name env.side) (by decide) (.cons (.name event.call.name) (by decide)
      (.cons (.int64 event.call.number) (by decide) (.cons hargs (by decide)
        (.cons (.int64 event.tracedRet) (by decide) (.cons (.int32 event.tracedErrno) (by decide)
          (.cons (.natural event.times.startNs.toNat_lt) (by decide)
            (.cons (.natural event.times.endNs.toNat_lt) (by decide)
              (.cons .ofFalse (by decide) (.cons houtputs (by decide) .nil)))))))))))).mono ?_
  norm_num

/-- The line of an event is the whole text and a line feed. -/
theorem emitEvent_eq (env : TracerEnvironment) (event : Event) :
    emitEvent env event = eventText env event ++ [10] := by
  have h := (printed_eventText env event).length_le
  rw [emitEvent, List.take_of_length_le]
  rw [List.length_append, List.length_singleton]
  omega

/-! ### Records -/

/-- The output record of a probe. -/
def rawOutput (env : TracerEnvironment) (probe : OutputProbe) : RawOutput where
  label := probe.label.text
  argIndex := probe.argIndex.val
  length := probe.bytes.length
  previewHex := pyText (probePreview env probe)
  sha256 := pyText (env.digest.hex (probedBytes env.platform probe))
  resourceKind := if probe.resourceKindFd then some "fd" else none
  resourceValues := if probe.resourceKindFd then probe.resourceValues.map Int64.toInt else []

/-- The event record of an event. -/
def rawEvent (env : TracerEnvironment) (event : Event) : RawEvent where
  eventIndex := event.call.callIndex.toInt
  syscallName := event.call.name.text
  syscallNumber := event.call.number.toInt
  args := event.call.args.toList.map Int64.toInt
  returnValue := event.tracedRet.toInt
  errno := event.tracedErrno.toInt
  startNs := event.times.startNs.toNat
  endNs := event.times.endNs.toNat
  outputs := event.probes.map (rawOutput env)

/-- A key of an object that was set member by member. -/
theorem get?_setMembers (object members : List (Text × Value)) (key : Text) :
    (Value.obj (setMembers object members)).get? key =
      (members.reverse.lookup key).or (object.lookup key) := by
  show (setMembers object members).lookup key = _
  induction members generalizing object with
  | nil => simp [setMembers]
  | cons first members ih =>
    obtain ⟨memberKey, value⟩ := first
    have hcons : setMembers object ((memberKey, value) :: members) =
        setMembers (insertMember memberKey value object) members := rfl
    rw [hcons, ih, lookup_insertMember, List.reverse_cons, List.lookup_append, lookup_member]
    cases List.lookup key members.reverse with
    | some found => rfl
    | none => by_cases h : key = memberKey <;> simp [h]

theorem mapM_toInt (values : List Int64) :
    values.mapM (toInt ∘ fun value ↦ Value.int value.toInt) =
      (.ok (values.map Int64.toInt) : Except PyError (List ℤ)) := by
  apply Library.Fallible.mapM_eq_ok_iff.mpr
  induction values with
  | nil => exact .nil
  | cons value values ih => exact .cons rfl ih

theorem decodeOutput_outputValue (env : TracerEnvironment) (probe : OutputProbe) :
    decodeOutput (outputValue env probe) = .ok (rawOutput env probe) := by
  rw [decodeOutput, outputValue, rawOutput]
  cases hfd : probe.resourceKindFd with
  | false =>
    simp only [getItem, get?_setMembers]
    simp [lookup_member, toInt, toText, pyText_ofString]
  | true =>
    simp only [getItem, get?_setMembers]
    simp [lookup_member, toInt, toText, toList, pyText_ofString, mapM_toInt]

theorem decodeEvent_eventValue (env : TracerEnvironment) (event : Event) :
    decodeEvent (eventValue env event) = .ok (rawEvent env event) := by
  have houtputs : (event.probes.map (outputValue env)).mapM decodeOutput =
      (.ok (event.probes.map (rawOutput env)) : Except PyError (List RawOutput)) := by
    apply Library.Fallible.mapM_eq_ok_iff.mpr
    induction event.probes with
    | nil => exact .nil
    | cons probe probes ih => exact .cons (decodeOutput_outputValue env probe) ih
  rw [decodeEvent, eventValue, rawEvent]
  simp only [getItem, get?_setMembers]
  simp [lookup_member, toInt, toText, toList, pyText_ofString, houtputs]
  rfl

/-! ### Lines

The text of an event is printable, so it has no line break inside, and it starts and ends with a
brace, so stripping keeps it. A file of such lines is read back line by line. -/

/-- A text without line breaks is one line. -/
theorem splitLinesFrom_line {line body : Text} (hbody : ∀ c ∈ body, isLineBreak c = false)
    (rest : Text) :
    splitLinesFrom line (body ++ 10 :: rest) = (line ++ body) :: splitLinesFrom [] rest := by
  induction body generalizing line with
  | nil =>
    rw [List.nil_append, List.append_nil, splitLinesFrom, if_pos (by decide)]
    intro more heq
    cases heq
  | cons c body ih =>
    have hc := hbody c List.mem_cons_self
    have hne : c ≠ 13 := by
      rintro rfl
      exact absurd hc (by decide)
    rw [List.cons_append, splitLinesFrom, hc, if_neg (by simp),
      ih fun d hd ↦ hbody d (List.mem_cons_of_mem c hd)]
    · simp
    · intro _ heq
      exact absurd heq hne

/-- Lines that end with a line feed are split back. -/
theorem splitLines_lines {bodies : List Text}
    (hbodies : ∀ body ∈ bodies, ∀ c ∈ body, isLineBreak c = false) :
    splitLines (bodies.flatMap fun body ↦ body ++ [10]) = bodies := by
  induction bodies with
  | nil => rfl
  | cons body rest ih =>
    have hrest : splitLinesFrom [] (rest.flatMap fun body ↦ body ++ [10]) = rest :=
      ih fun b hb ↦ hbodies b (List.mem_cons_of_mem body hb)
    rw [splitLines, List.flatMap_cons, List.append_assoc, List.singleton_append,
      splitLinesFrom_line (hbodies body List.mem_cons_self), hrest]
    rfl

theorem Printable.isLineBreak_eq {text : Text} (htext : Printable text) :
    ∀ c ∈ text, isLineBreak c = false := by
  intro c hc
  have hrange := htext c hc
  simp only [isLineBreak, List.mem_cons, List.not_mem_nil, or_false, decide_eq_false_iff_not]
  omega

/-- What is stripped stands before and behind what is left. -/
theorem exists_strip (text : Text) : ∃ before behind, text = before ++ (strip text ++ behind) ∧
    (∀ c ∈ before, isStripped c = true) ∧ ∀ c ∈ behind, isStripped c = true := by
  have hfront := List.takeWhile_append_dropWhile (p := isStripped) (l := text)
  have hback := List.takeWhile_append_dropWhile (p := isStripped)
    (l := (text.dropWhile isStripped).reverse)
  refine ⟨text.takeWhile isStripped,
    ((text.dropWhile isStripped).reverse.takeWhile isStripped).reverse, ?_,
    fun c hc ↦ List.mem_takeWhile_imp hc,
    fun c hc ↦ List.mem_takeWhile_imp (List.mem_reverse.mp hc)⟩
  rw [strip, ← List.reverse_append, hback, List.reverse_reverse, hfront]

/-- Nothing is stripped between braces. -/
theorem strip_padded {before behind : Text} (hbefore : ∀ c ∈ before, isStripped c = true)
    (hbehind : ∀ c ∈ behind, isStripped c = true) (inner : Text) :
    strip (before ++ (123 :: inner ++ [125] ++ behind)) = 123 :: inner ++ [125] := by
  have hfront : (before ++ (123 :: inner ++ [125] ++ behind)).dropWhile isStripped =
      123 :: inner ++ [125] ++ behind := by
    rw [List.dropWhile_append_of_pos hbefore]
    exact List.dropWhile_cons_of_neg (by decide)
  rw [strip, hfront, List.reverse_append, List.dropWhile_append_of_pos fun c hc ↦
    hbehind c (List.mem_reverse.mp hc), List.reverse_append]
  show (List.dropWhile isStripped (125 :: (123 :: inner).reverse)).reverse = _
  rw [List.dropWhile_cons_of_neg (by decide), List.reverse_cons, List.reverse_reverse]

theorem strip_braces (inner : Text) : strip (123 :: inner ++ [125]) = 123 :: inner ++ [125] := by
  have hnone : ∀ c ∈ ([] : Text), isStripped c = true := fun _ hc ↦ absurd hc List.not_mem_nil
  have hstrip := strip_padded hnone hnone inner
  rwa [List.nil_append, List.append_nil] at hstrip

/-- The text of an object is a line of its own that parses to the object. -/
structure EventLine (body : Text) (value : Value) : Prop where
  printable : Printable body
  braces : ∃ inner, body = 123 :: inner ++ [125]
  reads : Reads body value

theorem EventLine.strip_eq {body : Text} {value : Value} (hline : EventLine body value) :
    strip body = body := by
  obtain ⟨inner, rfl⟩ := hline.braces
  exact strip_braces inner

theorem jsonLoads_of_reads {text : Text} {value : Value} (hreads : Reads text value) :
    jsonLoads text = .ok value := by
  have hparse := hreads.parse_eq (show ∀ c ∈ ([] : Text), isSpace c = true by simp)
  rw [List.append_nil] at hparse
  rw [jsonLoads, hparse]

theorem EventLine.jsonLoads_eq {body : Text} {value : Value} (hline : EventLine body value) :
    jsonLoads body = .ok value :=
  jsonLoads_of_reads hline.reads

theorem EventLine.isEmpty_eq {body : Text} {value : Value} (hline : EventLine body value) :
    body.isEmpty = false := by
  obtain ⟨inner, rfl⟩ := hline.braces
  rfl

theorem eventLine_eventText (env : TracerEnvironment) (event : Event) :
    EventLine (eventText env event) (eventValue env event) :=
  ⟨(printed_eventText env event).printable, ⟨_, rfl⟩, (printed_eventText env event).reads⟩

theorem eventLine_of_mem {bodies : List Text} {values : List Value}
    (hlines : List.Forall₂ EventLine bodies values) {body : Text} (hbody : body ∈ bodies) :
    ∃ value, EventLine body value := by
  induction hlines with
  | nil => cases hbody
  | cons hline _ ih =>
    rcases List.mem_cons.mp hbody with rfl | hbody
    · exact ⟨_, hline⟩
    · exact ih hbody

theorem mapM_jsonLoads {bodies : List Text} {values : List Value}
    (hlines : List.Forall₂ EventLine bodies values) : bodies.mapM jsonLoads = .ok values := by
  apply Library.Fallible.mapM_eq_ok_iff.mpr
  exact hlines.imp fun _ _ hline ↦ hline.jsonLoads_eq

/-- The lines of an event file are read back. -/
theorem parseEvents_lines {bodies : List Text} {values : List Value}
    (hlines : List.Forall₂ EventLine bodies values) :
    parseEvents (bodies.flatMap fun body ↦ body ++ [10]) = .ok values := by
  have hstrip : bodies.map strip = bodies := by
    conv_rhs => rw [← List.map_id bodies]
    apply List.map_congr_left
    intro body hbody
    obtain ⟨value, hline⟩ := eventLine_of_mem hlines hbody
    exact hline.strip_eq
  have hfilter : (bodies.filter fun line ↦ !line.isEmpty) = bodies := by
    apply List.filter_eq_self.mpr
    intro body hbody
    obtain ⟨value, hline⟩ := eventLine_of_mem hlines hbody
    rw [hline.isEmpty_eq]
    rfl
  rw [parseEvents, splitLines_lines, hstrip, hfilter, mapM_jsonLoads hlines]
  intro body hbody
  obtain ⟨value, hline⟩ := eventLine_of_mem hlines hbody
  exact hline.printable.isLineBreak_eq

end SyzAbi.Agent
