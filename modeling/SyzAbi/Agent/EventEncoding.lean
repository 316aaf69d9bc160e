import SyzAbi.Agent.TraceStream
import SyzAbi.Agent.TracerAgreement
import SyzAbi.Library.Utf8

/-!
# The bytes of an event line

`emit_event` of the Linux tracer as the source computes it: a run of saturating appends into a
buffer of 32768 bytes (`emitEventBytes`). The buffer never fills up, whatever the side string is,
and the bytes are the UTF-8 encoding of a JSON text that reads as the fields of the event. Two
fields are not what the tracer was given: `append_json_string` writes a question mark for a control
character other than a tab, a line feed and a carriage return, and the probe of a `struct stat` has
its volatile fields zeroed.
-/

set_option autoImplicit false
set_option relaxedAutoImplicit false

namespace SyzAbi.Agent

open Library.Json Library.Utf8 Orchestrator

/-! ### Saturating appends -/

/-- `append_raw`: the buffer after an append that keeps room for the final NUL. -/
def appendRaw (outSize : ℕ) (out src : List ℕ) : List ℕ :=
  if outSize = 0 then out
  else
    let used := out.take (outSize - 1)
    used ++ src.take (outSize - 1 - used.length)

theorem appendRaw_take {outSize : ℕ} (hsize : outSize ≠ 0) (out src : List ℕ) :
    appendRaw outSize (out.take (outSize - 1)) src = (out ++ src).take (outSize - 1) := by
  have hroom : outSize - 1 - min (outSize - 1) out.length = outSize - 1 - out.length := by omega
  rw [appendRaw, if_neg hsize]
  simp only [List.take_take, Nat.min_self, List.length_take, hroom]
  rw [List.take_append]

/-- A run of appends keeps what fits of the pieces. -/
theorem foldl_appendRaw {outSize : ℕ} (hsize : outSize ≠ 0) (out : List ℕ)
    (pieces : List (List ℕ)) :
    pieces.foldl (appendRaw outSize) (out.take (outSize - 1)) =
      (out ++ pieces.flatten).take (outSize - 1) := by
  induction pieces generalizing out with
  | nil => rw [List.foldl_nil, List.flatten_nil, List.append_nil]
  | cons piece rest ih =>
    rw [List.foldl_cons, appendRaw_take hsize, ih, List.flatten_cons, List.append_assoc]

/-- The magnitude that `append_i64` prints behind the sign. -/
def magnitude (value : Int64) : UInt64 :=
  if value < 0 then (-(value + 1)).toUInt64 + 1 else value.toUInt64

/-- The magnitude is the absolute value, also of `LONG_MIN`. -/
theorem toNat_magnitude (value : Int64) : (magnitude value).toNat = value.toInt.natAbs := by
  have hsigned : value.toInt = if 2 * value.toUInt64.toNat < 2 ^ 64 then
      (value.toUInt64.toNat : ℤ) else value.toUInt64.toNat - (2 ^ 64 : ℕ) :=
    BitVec.toInt_eq_toNat_cond value.toBitVec
  have hlt := value.toUInt64.toNat_lt
  have hneg : value < 0 ↔ value.toInt < 0 := Int64.lt_iff_toInt_lt
  rw [magnitude]
  split_ifs with hvalue
  · have hcancel : (-(value + 1)).toUInt64 + 1 = -value.toUInt64 := by
      rw [Int64.toUInt64_neg, Int64.toUInt64_add]
      show -(value.toUInt64 + 1) + 1 = -value.toUInt64
      rw [neg_add, add_assoc, neg_add_cancel, add_zero]
    rw [hneg] at hvalue
    rw [hcancel, UInt64.toNat_neg, show UInt64.size = 2 ^ 64 from rfl]
    split_ifs at hsigned
    · omega
    · rw [Nat.mod_eq_of_lt (by omega)]
      omega
  · rw [hneg] at hvalue
    split_ifs at hsigned
    · omega
    · omega

/-- `append_i64`. -/
def i64Text (value : Int64) : Text :=
  if value < 0 then 45 :: decimal (magnitude value).toNat else decimal (magnitude value).toNat

theorem i64Text_eq (value : Int64) : i64Text value = decimalInt value.toInt := by
  have hneg : value < 0 ↔ value.toInt < 0 := Int64.lt_iff_toInt_lt
  rw [i64Text, decimalInt, toNat_magnitude]
  by_cases hvalue : value < 0
  · rw [if_pos hvalue, if_pos (hneg.mp hvalue)]
  · rw [if_neg hvalue, if_neg (fun h ↦ hvalue (hneg.mpr h))]

/-! ### The pieces of a line -/

/-- A key with what leads to it, and the colon: the text `,"label":` for the lead of a comma. -/
def key (lead : Text) (name : String) : Text := lead ++ quoted (PyStr.ofString name) ++ [58]

/-- The pieces of a loop that writes a comma between its turns. -/
def separated : List (List Text) → List Text
  | [] => []
  | [pieces] => pieces
  | pieces :: next :: rest => pieces ++ [44] :: separated (next :: rest)

/-- The appends for one probe. -/
def outputPieces (env : TracerEnvironment) (probe : OutputProbe) : List Text :=
  [key [123] "label", jsonString (PyStr.ofString probe.label.text),
    key [44] "arg_index", decimal probe.argIndex.val,
    key [44] "length", decimal probe.bytes.length,
    key [44] "preview_hex", jsonString (probePreview env probe),
    key [44] "sha256", jsonString (env.digest.hex (probedBytes env.platform probe))] ++
  (if probe.resourceKindFd then
    [key [44] "resource_kind" ++ quoted (PyStr.ofString "fd") ++ key [44] "resource_values" ++
        [91]] ++
      separated (probe.resourceValues.map fun value ↦ [i64Text value]) ++ [[93]]
  else []) ++ [[125]]

/-- The appends of `emit_event`, with the strings of the side and of the system call. -/
def eventPieces (env : TracerEnvironment) (side name : List ℕ) (event : Event) : List Text :=
  [key [123] "event_index", i64Text event.call.callIndex,
    key [44] "side", jsonString side,
    key [44] "syscall_name", jsonString name,
    key [44] "syscall_number", i64Text event.call.number,
    key [44] "args" ++ [91]] ++
  separated (event.call.args.toList.map fun arg ↦ [i64Text arg]) ++
  [93 :: key [44] "return_value", i64Text event.tracedRet,
    key [44] "errno", i64Text event.tracedErrno.toInt64,
    key [44] "start_ns", decimal event.times.startNs.toNat,
    key [44] "end_ns", decimal event.times.endNs.toNat,
    key [44] "timed_out" ++ PyStr.ofString "false" ++ key [44] "outputs" ++ [91]] ++
  separated (event.probes.map (outputPieces env)) ++ [[93, 125, 10]]

/-- The buffer `line` at the end of `emit_event`. -/
def emitEventBytes (env : TracerEnvironment) (side name : List ℕ) (event : Event) : List ℕ :=
  (eventPieces env side name event).foldl (appendRaw 32768) []

/-- The members of an event behind its side. -/
def membersBehindSide (env : TracerEnvironment) (name : Text) (event : Event) : List Text :=
  [member "syscall_name" (jsonString name),
   member "syscall_number" (decimalInt event.call.number.toInt),
   member "args" (arrayText (event.call.args.toList.map fun arg ↦ decimalInt arg.toInt)),
   member "return_value" (decimalInt event.tracedRet.toInt),
   member "errno" (decimalInt event.tracedErrno.toInt),
   member "start_ns" (decimal event.times.startNs.toNat),
   member "end_ns" (decimal event.times.endNs.toNat),
   member "timed_out" (PyStr.ofString "false"),
   member "outputs" (arrayText (event.probes.map (outputText env)))]

/-- The text of an event with given strings of the side and of the system call. -/
def eventTextOf (env : TracerEnvironment) (side name : Text) (event : Event) : Text :=
  objectText (member "event_index" (decimalInt event.call.callIndex.toInt) ::
    member "side" (jsonString side) :: membersBehindSide env name event)

theorem flatten_separated (groups : List (List Text)) :
    (separated groups).flatten = commaJoin (groups.map List.flatten) := by
  induction groups with
  | nil => rfl
  | cons pieces rest ih =>
    cases rest with
    | nil => rfl
    | cons next more =>
      rw [separated, List.flatten_append, List.flatten_cons, ih]
      rfl

theorem flatten_outputPieces (env : TracerEnvironment) (probe : OutputProbe) :
    (outputPieces env probe).flatten = outputText env probe := by
  have hfd : jsonString (PyStr.ofString "fd") = quoted (PyStr.ofString "fd") := by decide
  have hvalues : (separated (probe.resourceValues.map fun value ↦ [i64Text value])).flatten =
      commaJoin (probe.resourceValues.map fun value ↦ decimalInt value.toInt) := by
    rw [flatten_separated, List.map_map]
    simp [Function.comp_def, i64Text_eq]
  rw [outputPieces, outputText]
  split_ifs
  · simp [key, hvalues, hfd, objectText, commaJoin, member, memberText, quoted, arrayText]
  · simp [key, objectText, commaJoin, member, memberText, quoted]

/-- The appends write the text of the event and a line feed. -/
theorem flatten_eventPieces (env : TracerEnvironment) (side name : List ℕ) (event : Event) :
    (eventPieces env side name event).flatten = eventTextOf env side name event ++ [10] := by
  have hargs : (separated (event.call.args.toList.map fun arg ↦ [decimalInt arg.toInt])).flatten =
      commaJoin (event.call.args.toList.map fun arg ↦ decimalInt arg.toInt) := by
    rw [flatten_separated, List.map_map]
    simp [Function.comp_def]
  have hprobes : (separated (event.probes.map (outputPieces env))).flatten =
      commaJoin (event.probes.map (outputText env)) := by
    rw [flatten_separated, List.map_map]
    simp [Function.comp_def, flatten_outputPieces]
  have herrno : event.tracedErrno.toInt64.toInt = event.tracedErrno.toInt := Int32.toInt_toInt64 _
  simp [eventPieces, eventTextOf, membersBehindSide, key, hargs, hprobes, i64Text_eq, herrno,
    objectText, commaJoin, member, memberText, quoted, arrayText]

/-! ### Strings with escapes -/

/-- The character that a reader finds for a character that `append_json_string` wrote. -/
def shownChar (c : ℕ) : ℕ := if c < 32 ∧ c ≠ 9 ∧ c ≠ 10 ∧ c ≠ 13 then 63 else c

/-- The text that a reader finds. -/
def shown (text : Text) : Text := text.map shownChar

/-- One written character reads back as the character that is shown. -/
theorem scanString_jsonChar (c fuel : ℕ) (rest : Text) :
    scanString (fuel + 1) (jsonChar c ++ rest) =
      (scanString fuel rest).map fun result ↦ (shownChar c :: result.1, result.2) := by
  have hescape : ∀ letter, letter ≠ 117 → simpleEscape letter = some c →
      scanString (fuel + 1) (92 :: letter :: rest) =
        (scanString fuel rest).map fun result ↦ (c :: result.1, result.2) := by
    intro letter hletter hvalue
    have hread : readEscape (letter :: rest) = some (c, rest) := by
      rw [readEscape, hvalue, Option.map_some]
      exact hletter
    rw [scanString, if_neg (by decide), if_pos rfl, hread, Option.map_eq_bind]
    rfl
  have hself : ∀ d, d ≠ 34 → d ≠ 92 → ¬d < 32 → scanString (fuel + 1) (d :: rest) =
      (scanString fuel rest).map fun result ↦ (d :: result.1, result.2) := by
    intro d hquote hbackslash hlow
    rw [scanString, if_neg hquote, if_neg hbackslash, if_neg hlow, Option.map_eq_bind]
    rfl
  by_cases hbackslash : c = 92
  · subst hbackslash
    exact hescape 92 (by decide) rfl
  by_cases hquote : c = 34
  · subst hquote
    exact hescape 34 (by decide) rfl
  by_cases hfeed : c = 10
  · subst hfeed
    exact hescape 110 (by decide) rfl
  by_cases hreturn : c = 13
  · subst hreturn
    exact hescape 114 (by decide) rfl
  by_cases htab : c = 9
  · subst htab
    exact hescape 116 (by decide) rfl
  rw [jsonChar, shownChar, if_neg hbackslash, if_neg hquote, if_neg hfeed, if_neg hreturn,
    if_neg htab]
  by_cases hlow : c < 32
  · rw [if_pos hlow, if_pos ⟨hlow, htab, hfeed, hreturn⟩]
    exact hself 63 (by decide) (by decide) (by decide)
  · rw [if_neg hlow, if_neg (fun h ↦ hlow h.1)]
    exact hself c hquote hbackslash hlow

/-- A written string reads back as the text that is shown. -/
theorem scanString_escaped (text : Text) {fuel : ℕ} (rest : Text) (hfuel : text.length < fuel) :
    scanString fuel (text.flatMap jsonChar ++ 34 :: rest) = some (shown text, rest) := by
  induction text generalizing fuel with
  | nil =>
    obtain ⟨fuel, rfl⟩ := Nat.exists_eq_succ_of_ne_zero (by omega : fuel ≠ 0)
    simp [scanString, shown]
  | cons c text ih =>
    obtain ⟨fuel, rfl⟩ := Nat.exists_eq_succ_of_ne_zero (by omega : fuel ≠ 0)
    have hrest := ih (by simp only [List.length_cons] at hfuel; omega : text.length < fuel)
    rw [List.flatMap_cons, List.append_assoc, scanString_jsonChar, hrest]
    rfl

theorem one_le_length_jsonChar (c : ℕ) : 1 ≤ (jsonChar c).length ∧ (jsonChar c).length ≤ 2 := by
  rw [jsonChar]
  split_ifs <;> simp

theorem length_flatMap_jsonChar (text : Text) :
    text.length ≤ (text.flatMap jsonChar).length ∧
      (text.flatMap jsonChar).length ≤ 2 * text.length := by
  induction text with
  | nil => simp
  | cons c text ih =>
    have hchar := one_le_length_jsonChar c
    rw [List.flatMap_cons, List.length_append, List.length_cons]
    omega

theorem reads_jsonString (text : Text) : Reads (jsonString text) (.str (shown text)) := by
  refine ⟨⟨34, _, rfl, by decide, by decide, by decide⟩, ?_⟩
  intro fuel rest hfuel _
  obtain ⟨fuel, rfl⟩ := Nat.exists_eq_succ_of_ne_zero (by omega : fuel ≠ 0)
  have hlength := (length_flatMap_jsonChar text).1
  have htext : jsonString text ++ rest = 34 :: (text.flatMap jsonChar ++ 34 :: rest) := by
    simp [jsonString]
  simp only [jsonString, List.length_append, List.length_cons] at hfuel
  rw [htext, readValue, if_pos rfl, scanString_escaped text rest (by omega)]
  rfl

/-! ### The whole line -/

/-- The fields of an event behind its side. -/
def fieldsBehindSide (env : TracerEnvironment) (name : Text) (event : Event) :
    List (Text × Value) :=
  [(PyStr.ofString "syscall_name", .str name),
   (PyStr.ofString "syscall_number", .int event.call.number.toInt),
   (PyStr.ofString "args", .arr (event.call.args.toList.map fun arg ↦ .int arg.toInt)),
   (PyStr.ofString "return_value", .int event.tracedRet.toInt),
   (PyStr.ofString "errno", .int event.tracedErrno.toInt),
   (PyStr.ofString "start_ns", .int event.times.startNs.toNat),
   (PyStr.ofString "end_ns", .int event.times.endNs.toNat),
   (PyStr.ofString "timed_out", .bool false),
   (PyStr.ofString "outputs", .arr (event.probes.map (outputValue env)))]

/-- The object of the fields of an event, with given strings of the side and of the system call. -/
def eventValueOf (env : TracerEnvironment) (side name : Text) (event : Event) : Value :=
  .obj (setMembers [] ((PyStr.ofString "event_index", .int event.call.callIndex.toInt) ::
    (PyStr.ofString "side", .str side) :: fieldsBehindSide env name event))

section Line

variable (env : TracerEnvironment) (event : Event) {name : Text}

/-- The members behind the side. -/
theorem printedMembers_behindSide (hname : ∀ c ∈ name, isIdentifierChar c = true)
    (hshort : name.length ≤ 4096) :
    PrintedMembers (membersBehindSide env name event) (fieldsBehindSide env name event) 30307 := by
  have houtputs := Printed.array event.probes 3 event.probes_le
    fun probe _ ↦ printed_outputText env probe
  have hargs := Printed.integers event.call.args.toList 6 le_rfl
  rw [membersBehindSide, jsonString_of_plain (plain_of_identifier hname)]
  exact .cons (.string 4096 hname hshort) (by decide)
    (.cons (.int64 event.call.number) (by decide) (.cons hargs (by decide)
      (.cons (.int64 event.tracedRet) (by decide) (.cons (.int32 event.tracedErrno) (by decide)
        (.cons (.natural event.times.startNs.toNat_lt) (by decide)
          (.cons (.natural event.times.endNs.toNat_lt) (by decide)
            (.cons .ofFalse (by decide) (.cons houtputs (by decide) .nil))))))))

/-- The text of an event reads as its fields, with the side as it is shown. -/
theorem reads_eventTextOf (side : Text) (hname : ∀ c ∈ name, isIdentifierChar c = true)
    (hshort : name.length ≤ 4096) :
    Reads (eventTextOf env side name event) (eventValueOf env (shown side) name event) := by
  refine Reads.object (.cons ?_ (.cons ?_ (printedMembers_behindSide env event hname hshort).reads))
  · have hkey : Plain (PyStr.ofString "event_index") := plain_of_identifier (by decide)
    exact ⟨hkey, _, rfl, Reads.integer _⟩
  · have hkey : Plain (PyStr.ofString "side") := plain_of_identifier (by decide)
    exact ⟨hkey, _, rfl, reads_jsonString side⟩

/-- The text of an event fits into the buffer. -/
theorem length_eventTextOf_lt {side : List ℕ} (hside : side.length ≤ 256)
    (hname : ∀ c ∈ name, isIdentifierChar c = true) (hshort : name.length ≤ 4096) :
    (eventTextOf env side name event).length < 32000 := by
  have hrest := (printedMembers_behindSide env event hname hshort).length_le
  have hindex := length_decimalInt event.call.callIndex.le_toInt event.call.callIndex.toInt_lt
  have hescaped := (length_flatMap_jsonChar side).2
  have hkeys : (PyStr.ofString "event_index").length = 11 ∧ (PyStr.ofString "side").length = 4 := by
    decide
  rw [eventTextOf, objectText, List.length_append, List.length_cons, List.length_singleton]
  refine lt_of_le_of_lt (Nat.add_le_add_right (Nat.succ_le_succ (length_commaJoin_le _)) _) ?_
  simp only [List.map_cons, List.sum_cons, List.length_cons] at hrest ⊢
  have hfirst : (member "event_index" (decimalInt event.call.callIndex.toInt)).length ≤ 34 := by
    simp only [member, memberText, quoted, List.length_append, List.length_cons, List.length_nil,
      hkeys.1]
    omega
  have hsecond : (member "side" (jsonString side)).length ≤ 521 := by
    simp only [member, memberText, quoted, jsonString, List.length_append, List.length_cons,
      List.length_nil, hkeys.2]
    omega
  omega

/-- The whole text is in the buffer. -/
theorem emitEventBytes_eq {side : List ℕ} (hside : side.length ≤ 256)
    (hname : ∀ c ∈ name, isIdentifierChar c = true) (hshort : name.length ≤ 4096) :
    emitEventBytes env side name event = eventTextOf env side name event ++ [10] := by
  have hlength := length_eventTextOf_lt env event hside hname hshort
  have hrun := foldl_appendRaw (show (32768 : ℕ) ≠ 0 by decide) []
    (eventPieces env side name event)
  rw [List.take_nil, List.nil_append, flatten_eventPieces] at hrun
  rw [emitEventBytes, hrun, List.take_of_length_le]
  rw [List.length_append, List.length_singleton]
  omega

theorem encode_of_printable {text : Text} (htext : Printable text) : encode text = text :=
  encode_ascii fun c hc ↦ by
    have hrange := htext c hc
    omega

/-- Escaping a string and encoding it commute. -/
theorem encode_jsonString (side : String) :
    encode (jsonString (PyStr.ofString side)) = jsonString (encode (PyStr.ofString side)) := by
  have hkeeps : ∀ c, 128 ≤ c → jsonChar c = [c] := by
    intro c hc
    rw [jsonChar, if_neg (by omega), if_neg (by omega), if_neg (by omega), if_neg (by omega),
      if_neg (by omega), if_neg (by omega)]
  have hascii : ∀ c, c < 128 → ∀ d ∈ jsonChar c, d < 128 := by
    intro c hc d hd
    rw [jsonChar] at hd
    split_ifs at hd <;> simp only [List.mem_cons, List.not_mem_nil, or_false] at hd <;> omega
  have hquote : encodePoint 34 = [34] := encodePoint_ascii (by omega)
  rw [jsonString, jsonString, encode_append, encode_cons, hquote, encode_cons, hquote]
  exact congrArg (fun inner ↦ [34] ++ inner ++ [34]) (encode_flatMap hkeeps hascii side.toList)

/-- The text around the side is ASCII, so the encoded text is the text with the encoded side. -/
theorem encode_eventTextOf (side : String) (hname : ∀ c ∈ name, isIdentifierChar c = true)
    (hshort : name.length ≤ 4096) :
    encode (eventTextOf env (PyStr.ofString side) name event) =
      eventTextOf env (encode (PyStr.ofString side)) name event := by
  have hbehind := (printedMembers_behindSide env event hname hshort).printable
  have hindex : Printable (member "event_index" (decimalInt event.call.callIndex.toInt)) :=
    (printable_of_identifier (by decide)).quoted.append
      (Printable.cons (by decide) (printable_decimalInt _))
  obtain ⟨front, back, hfront, hback, hsplit⟩ : ∃ front back : Text, Printable front ∧
      Printable back ∧ ∀ text, eventTextOf env text name event =
        front ++ (jsonString text ++ back) := by
    refine ⟨123 :: (member "event_index" (decimalInt event.call.callIndex.toInt) ++
        44 :: (quoted (PyStr.ofString "side") ++ [58])),
      44 :: (commaJoin (membersBehindSide env name event) ++ [125]), ?_, ?_, ?_⟩
    · exact Printable.cons (by decide) (hindex.append (Printable.cons (by decide) (by decide)))
    · exact Printable.cons (by decide) ((printable_commaJoin hbehind).append (by decide))
    · intro text
      rw [eventTextOf, objectText, membersBehindSide, commaJoin_cons_cons, commaJoin_cons_cons]
      simp only [member, memberText, List.append_assoc, List.cons_append, List.nil_append]
  rw [hsplit, hsplit, encode_append, encode_append, encode_of_printable hfront,
    encode_of_printable hback, encode_jsonString]

/-- The JSON decoder finds the fields of the event, with the side as it is shown. -/
theorem jsonLoads_eventTextOf (side : Text) (hname : ∀ c ∈ name, isIdentifierChar c = true)
    (hshort : name.length ≤ 4096) :
    jsonLoads (eventTextOf env side name event) =
      .ok (eventValueOf env (shown side) name event) := by
  have hparse := (reads_eventTextOf env event side hname hshort).parse_eq
    (show ∀ c ∈ ([] : Text), isSpace c = true by simp)
  rw [List.append_nil] at hparse
  rw [jsonLoads, hparse]

/-- The preview shows as many bytes as the setting and its buffer allow. -/
theorem probePreview_eq (probe : OutputProbe) :
    probePreview env probe = ((probedBytes env.platform probe).take
      (min probe.bytes.length (min env.previewBytes 4095))).flatMap hexByte := by
  have hcount : min ((8192 - 1) / 2) (safeProbeLength env.previewBytes probe.bytes.length) =
      min probe.bytes.length (min env.previewBytes 4095) := by
    rw [safeProbeLength]
    split_ifs <;> omega
  rw [probePreview, hexPreview, List.take_take, hcount]

theorem length_encode_ofString_le {side : String} (hside : side.length ≤ 64) :
    (encode (PyStr.ofString side)).length ≤ 256 := by
  have hbytes := length_encode_le (PyStr.ofString side)
  rw [PyStr.ofString, List.length_map, String.length_toList] at hbytes
  rw [PyStr.ofString]
  omega

/-- The line is complete, no buffer drops it, and it is the encoding of a JSON text that decodes to
the fields of the event, with the side as it is shown. Each preview shows the first bytes of its
probe, unless that is the probe of a `struct stat`. -/
theorem emitEventBytes_roundTrip (side : String) (hside : side.length ≤ 64)
    (hname : ∀ c ∈ name, isIdentifierChar c = true) (hshort : name.length ≤ 4096) :
    emitEventBytes env (encode (PyStr.ofString side)) name event =
        encode (eventTextOf env (PyStr.ofString side) name event) ++ [10] ∧
      traceStdoutPrefix.length +
        (emitEventBytes env (encode (PyStr.ofString side)) name event).length < 33024 ∧
      jsonLoads (eventTextOf env (PyStr.ofString side) name event) =
        .ok (eventValueOf env (shown (PyStr.ofString side)) name event) ∧
      ∀ probe ∈ event.probes,
        probePreview env probe = ((probedBytes env.platform probe).take
          (min probe.bytes.length (min env.previewBytes 4095))).flatMap hexByte ∧
        (isStatProbe env.platform probe = false →
          probedBytes env.platform probe = probe.bytes) := by
  have hbytes := length_encode_ofString_le hside
  have hline := emitEventBytes_eq env event hbytes hname hshort
  refine ⟨?_, ?_, jsonLoads_eventTextOf env event _ hname hshort, ?_⟩
  · rw [hline, encode_eventTextOf env event side hname hshort]
  · have hlength := length_eventTextOf_lt env event hbytes hname hshort
    have hframe : traceStdoutPrefix.length = 23 := by decide
    rw [hline, List.length_append, List.length_singleton, hframe]
    omega
  · intro probe _
    refine ⟨probePreview_eq env probe, fun hstat ↦ ?_⟩
    rw [probedBytes, hstat, if_neg Bool.false_ne_true]

end Line

/-- The event of `getpid()`. -/
def getpidEvent : Event where
  call := ⟨getpidName, 39, 0, ⟨0, 0, 0, 0, 0, 0⟩⟩
  tracedRet := 1000
  tracedErrno := 0
  times := ⟨1, 2⟩
  probes := []
  probes_le := by decide

/-- A memory that holds `hello` at an address. -/
def helloMemory (address : UInt64) : UInt8 :=
  [104, 101, 108, 108, 111].getD (address - 4096).toNat 0

/-- The event of a `read` that puts the five bytes of `hello` into its buffer. -/
def helloEvent : Event where
  call := ⟨CommonSyscall.name .read, 0, 3, ⟨4, 4096, 64, 0, 0, 0⟩⟩
  tracedRet := 5
  tracedErrno := 0
  times := ⟨7, 9⟩
  probes := [bytesProbe helloMemory bufLabel 1 4096 5 (by decide)]
  probes_le := by decide

theorem emitEventBytes_roundTrip_hello :
    emitEventBytes smokeTracers.reference (encode (PyStr.ofString "référence"))
        (PyStr.ofString "read") helloEvent =
      encode (eventTextOf smokeTracers.reference (PyStr.ofString "référence")
        (PyStr.ofString "read") helloEvent) ++ [10] ∧
    traceStdoutPrefix.length + (emitEventBytes smokeTracers.reference
      (encode (PyStr.ofString "référence")) (PyStr.ofString "read") helloEvent).length < 33024 ∧
    jsonLoads (eventTextOf smokeTracers.reference (PyStr.ofString "référence")
        (PyStr.ofString "read") helloEvent) =
      .ok (eventValueOf smokeTracers.reference (shown (PyStr.ofString "référence"))
        (PyStr.ofString "read") helloEvent) ∧
    ∀ probe ∈ helloEvent.probes,
      probePreview smokeTracers.reference probe = PyStr.ofString "68656c6c6f" := by
  obtain ⟨hline, hlength, hdecodes, hprobes⟩ := emitEventBytes_roundTrip smokeTracers.reference
    helloEvent "référence" (by decide) (show ∀ c ∈ PyStr.ofString "read", _ by decide) (by decide)
  refine ⟨hline, hlength, hdecodes, fun probe hprobe ↦ ?_⟩
  rw [(hprobes probe hprobe).1, List.mem_singleton.mp hprobe]
  decide

/-- A side of one control character decodes to a question mark. -/
theorem controlSide_not_decoded :
    emitEventBytes smokeTracers.reference (encode (PyStr.ofString "\x01"))
        (PyStr.ofString "getpid") getpidEvent =
      encode (eventTextOf smokeTracers.reference (PyStr.ofString "\x01")
        (PyStr.ofString "getpid") getpidEvent) ++ [10] ∧
      jsonLoads (eventTextOf smokeTracers.reference (PyStr.ofString "\x01")
        (PyStr.ofString "getpid") getpidEvent) ≠
      .ok (eventValueOf smokeTracers.reference (PyStr.ofString "\x01")
        (PyStr.ofString "getpid") getpidEvent) := by
  have hname : ∀ c ∈ PyStr.ofString "getpid", isIdentifierChar c = true := by decide
  have hshort : (PyStr.ofString "getpid").length ≤ 4096 := by decide
  have hbytes : (encode (PyStr.ofString "\x01")).length ≤ 256 :=
    length_encode_ofString_le (by decide)
  refine ⟨?_, ?_⟩
  · rw [emitEventBytes_eq _ _ hbytes hname hshort, encode_eventTextOf _ _ _ hname hshort]
  · rw [jsonLoads_eventTextOf _ _ _ hname hshort]
    intro heq
    have hside := congrArg (fun value ↦ value.get? (PyStr.ofString "side")) (Except.ok.inj heq)
    simp only [eventValueOf, fieldsBehindSide, get?_setMembers] at hside
    simp [lookup_member] at hside
    revert hside
    decide

end SyzAbi.Agent
