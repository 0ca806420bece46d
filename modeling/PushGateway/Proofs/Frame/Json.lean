import PushGateway.Frame.Json
import PushGateway.Proofs.Json.Plain
import PushGateway.Proofs.Text.Utf8

/-!
Frames written as JSON and read back. The fields come back as they are; the body comes back as the
bytes that its value stands for, unless the level that the frame adds takes it past the limit of
nesting.
-/

namespace PushGateway.Frame

open Json (Tree Value Part maxDepth)
open Text (Utf8.encode Utf8.decode? Utf8.decode?_encode Utf8.decodeLossy Utf8.next Utf8.pieces
    Decimal.ofInt)

theorem intField?_ofInt {low high n : Int} (h : low ≤ n ∧ n ≤ high) (hl : -0x8000000000000000 ≤ low)
    (hh : high < 0x10000000000000000) : intField? low high (.number (.ofInt n)) = some n := by
  rw [intField?, Json.integer?_ofInt (by omega) (by omega), Option.filter_some,
    if_pos (decide_eq_true h)]

theorem int16Field?_toInt (n : Int16) : int16Field? (.number (.ofInt n.toInt)) = some n := by
  have hl : -0x8000 ≤ n.toInt := n.le_toInt
  have hh : n.toInt < 0x8000 := n.toInt_lt
  rw [int16Field?, intField?_ofInt (by omega) (by decide) (by decide), Option.map_some,
    Int16.ofInt_toInt]

theorem int32Field?_toInt (n : Int32) : int32Field? (.number (.ofInt n.toInt)) = some n := by
  have hl : -0x80000000 ≤ n.toInt := n.le_toInt
  have hh : n.toInt < 0x80000000 := n.toInt_lt
  rw [int32Field?, intField?_ofInt (by omega) (by decide) (by decide), Option.map_some,
    Int32.ofInt_toInt]

theorem maxDepth_pos : 0 < maxDepth := by decide

theorem body?_means {t : Tree} {v : Value} (h : t.Means v) :
    body? t = if v.depth < maxDepth then some (bodyBytes v) else none := by
  have hd : v.depth ≤ maxDepth - 1 ↔ v.depth < maxDepth := Nat.le_sub_one_iff_lt maxDepth_pos
  rw [body?, h]
  by_cases hv : v.depth < maxDepth
  · rw [if_pos hv, if_pos (hd.2 hv), Option.map_some]
  · rw [if_neg hv, if_neg (mt hd.1 hv), Option.map_none]

def fieldTexts (f : Frame) (body : List Char) : List (List Char × List Char) :=
  [("ver".toList, Decimal.ofInt f.ver.toInt), ("op".toList, Decimal.ofInt f.op.toInt),
    ("seq".toList, Decimal.ofInt f.seq.toInt), ("body".toList, body)]

def fieldParts (f : Frame) (body : Tree) : List (List Part × Tree) :=
  [("ver".toList.map Part.ofChar, .number (.ofInt f.ver.toInt)),
    ("op".toList.map Part.ofChar, .number (.ofInt f.op.toInt)),
    ("seq".toList.map Part.ofChar, .number (.ofInt f.seq.toInt)),
    ("body".toList.map Part.ofChar, body)]

theorem ofFields?_fieldParts (f : Frame) (t : Tree) :
    ofFields? (fieldParts f t) = (body? t).map fun body => { f with body } := by
  rw [fieldParts]
  simp only [ofFields?, List.foldlM, Fields.add, Json.text?_ofChar, Option.bind_eq_bind,
    Option.bind_some, String.ofList_toList, int16Field?_toInt, int32Field?_toInt]
  cases hb : body? t <;> simp [once, Fields.frame?]

/-- A frame with a body of its own choice is read back with the bytes that the body stands for, as
long as the body leaves room for one more level. -/
theorem decodeJson_jsonWith (f : Frame) {v : Value} (hv : v.Plain) :
    decodeJson (f.jsonWith v) =
      if v.depth < maxDepth then .ok { f with body := bodyBytes v }
      else .error (.malformedFrame "invalid json frame") := by
  obtain ⟨t, hmeans, hreads⟩ := hv.legible
  have hfields : List.Forall₂ Tree.ReadsField (fieldTexts f v.write) (fieldParts f t) :=
    .cons ⟨rfl, Tree.reads_ofInt _⟩
      (.cons ⟨rfl, Tree.reads_ofInt _⟩ (.cons ⟨rfl, Tree.reads_ofInt _⟩ (.cons ⟨rfl, hreads⟩ .nil)))
  have hparse : Tree.parse? (f.jsonWith v) = some (.object (fieldParts f t)) :=
    Tree.parse?_reads (Tree.reads_object hfields)
  rw [decodeJson, hparse, Option.bind_some, ofTree?, ofFields?_fieldParts, body?_means hmeans]
  by_cases hd : v.depth < maxDepth <;> simp [hd]

theorem bodyValue_encode (s : List Char) :
    bodyValue (Utf8.encode s) = if s = [] then .null else (Value.parse? s).getD (.string s) := by
  by_cases hs : s = []
  · subst hs
    rfl
  · have hne : (Utf8.encode s).isEmpty = false := by
      refine List.isEmpty_eq_false_iff.2 fun h => hs ?_
      have hread := Utf8.decode?_encode s
      rw [h, Utf8.decode?, Utf8.pieces] at hread
      exact (Option.some.inj hread).symm
    simp [bodyValue, hne, hs, Utf8.decode?_encode]

theorem bodyValue_write {v : Value} (hv : v.Plain) (hd : v.depth ≤ maxDepth) :
    bodyValue (Utf8.encode v.write) = v := by
  have hparse := hv.parse?_write hd
  have hne : v.write ≠ [] := by
    intro h
    rw [h] at hparse
    cases hparse
  rw [bodyValue_encode, if_neg hne, hparse, Option.getD_some]

theorem bodyValue_plain {body : Bytes} (h : (bodyValue body).Whole) :
    (bodyValue body).Plain ∧ (bodyValue body).depth ≤ maxDepth := by
  have htext (s : List Char) : (Value.string s).Plain ∧ (Value.string s).depth ≤ maxDepth :=
    ⟨.string s, Nat.zero_le _⟩
  revert h
  rw [bodyValue]
  split_ifs
  · exact fun _ => ⟨.null, Nat.zero_le _⟩
  · split
    · rename_i s _
      cases hs : Value.parse? s with
      | none => exact fun _ => htext s
      | some v => exact fun h => h.plain_of_parse? hs
    · exact fun _ => htext _

/-- Bodies that a text frame keeps as they are: none, a text that is no JSON, and the text of a
value that is neither null nor a string and leaves room for the frame around it. -/
inductive KeptByText : Bytes → Prop
  | empty : KeptByText []
  | text {s : List Char} (h : Value.parse? s = none) : KeptByText (Utf8.encode s)
  | bool (b : Bool) : KeptByText (Utf8.encode (Value.bool b).write)
  | int {n : Int} (low : -0x8000000000000000 ≤ n) (high : n < 0x10000000000000000) :
    KeptByText (Utf8.encode (Value.number (.int n)).write)
  | array {xs : List Value} (plain : (Value.array xs).Plain)
      (room : (Value.array xs).depth < maxDepth) :
    KeptByText (Utf8.encode (Value.array xs).write)
  | object {fs : List (List Char × Value)} (plain : (Value.object fs).Plain)
    (room : (Value.object fs).depth < maxDepth) : KeptByText (Utf8.encode (Value.object fs).write)

theorem decodeJson_toJson_of_bodyBytes {f : Frame} {v : Value} (hv : v.Plain)
    (hd : v.depth < maxDepth) (hf : bodyValue f.body = v) (hb : bodyBytes v = f.body) :
    decodeJson f.toJson = .ok f := by
  rw [toJson, hf, decodeJson_jsonWith f hv, if_pos hd, hb]

theorem decodeJson_toJson_of_write {f : Frame} {v : Value} (hv : v.Plain) (hd : v.depth < maxDepth)
    (hf : f.body = Utf8.encode v.write) (hb : bodyBytes v = Utf8.encode v.write) :
    decodeJson f.toJson = .ok f :=
  decodeJson_toJson_of_bodyBytes hv hd (hf ▸ bodyValue_write hv (Nat.le_of_lt hd))
    (hb.trans hf.symm)

/-- A frame whose body is kept is read back from its text. -/
theorem decodeJson_toJson {f : Frame} (h : KeptByText f.body) : decodeJson f.toJson = .ok f := by
  generalize hf : f.body = body at h
  cases h with
  | empty => exact decodeJson_toJson_of_bodyBytes .null maxDepth_pos (by rw [hf]; rfl) hf.symm
  | @text s hs =>
    by_cases hnil : s = []
    · subst hnil
      exact decodeJson_toJson_of_bodyBytes .null maxDepth_pos (by rw [hf]; rfl) hf.symm
    · have hv : bodyValue f.body = .string s := by
        rw [hf, bodyValue_encode, if_neg hnil, hs, Option.getD_none]
      exact decodeJson_toJson_of_bodyBytes (.string s) maxDepth_pos hv hf.symm
  | bool b => exact decodeJson_toJson_of_write (.bool b) maxDepth_pos hf rfl
  | int low high => exact decodeJson_toJson_of_write (.int low high) maxDepth_pos hf rfl
  | array plain room => exact decodeJson_toJson_of_write plain room hf rfl
  | object plain room => exact decodeJson_toJson_of_write plain room hf rfl

/-- Names to be escaped or put in order, characters of every length, and the ends of both ranges of
64 bits. -/
def everyKindOfText : Value :=
  .object [(['"', '\\', '\n', '\x01', '𝄞'],
      .array [.null, .number (.int (-0x8000000000000000)), .number (.int 0xffffffffffffffff)]),
    (['é'], .bool true)]

theorem everyKindOfText_plain : everyKindOfText.Plain := by
  have hitems : ∀ x ∈ [.null, .number (.int (-0x8000000000000000)),
    .number (.int 0xffffffffffffffff)],
      Value.Plain x :=
    List.forall_mem_cons.2 ⟨.null, List.forall_mem_cons.2
      ⟨.int (by decide) (by decide), List.forall_mem_singleton.2 (.int (by decide) (by decide))⟩⟩
  have hnames : ['"', '\\', '\n', '\x01', '𝄞'] < ['é'] := by decide
  exact .object (List.pairwise_pair.2 hnames)
    (List.forall_mem_cons.2 ⟨.array hitems, List.forall_mem_singleton.2 (.bool true)⟩)

theorem decodeJson_toJson_everyKindOfText :
    KeptByText (Utf8.encode everyKindOfText.write) ∧
      decodeJson (toJson ⟨1, 5, -7, Utf8.encode everyKindOfText.write⟩) =
      .ok ⟨1, 5, -7, Utf8.encode everyKindOfText.write⟩ ∧ KeptByText (Utf8.encode ['"', 'é']) ∧
      decodeJson (toJson ⟨-1, 5, 9, Utf8.encode ['"', 'é']⟩) =
      .ok ⟨-1, 5, 9, Utf8.encode ['"', 'é']⟩ := by
  have hkept : KeptByText (Utf8.encode everyKindOfText.write) :=
    .object everyKindOfText_plain (by decide)
  have htext : KeptByText (Utf8.encode ['"', 'é']) := .text rfl
  exact ⟨hkept, decodeJson_toJson hkept, htext, decodeJson_toJson htext⟩

/-- Doubles apart, a frame is read back from its text with its fields and the bytes that its body
stands for, but for a body whose arrays and objects take up the whole depth: the frame around it is
one level too many. Heartbeat replies are always read back. -/
theorem decodeJson_written (f : Frame) :
    ((bodyValue f.body).Whole → decodeJson f.toJson =
      if (bodyValue f.body).depth = maxDepth then .error (.malformedFrame "invalid json frame")
      else .ok { f with body := bodyBytes (bodyValue f.body) }) ∧
    ∀ online : Int32, decodeJson (f.heartbeatJson online) =
      .ok { f with body := Utf8.encode (Decimal.ofInt online.toInt) } := by
  constructor
  · intro h
    obtain ⟨hplain, hdepth⟩ := bodyValue_plain h
    rw [toJson, decodeJson_jsonWith f hplain]
    by_cases hfull : (bodyValue f.body).depth = maxDepth
    · rw [if_pos hfull, if_neg (Nat.not_lt.2 (Nat.le_of_eq hfull.symm))]
    · rw [if_neg hfull, if_pos (Nat.lt_of_le_of_ne hdepth hfull)]
  · intro online
    have hl : -0x80000000 ≤ online.toInt := online.le_toInt
    have hh : online.toInt < 0x80000000 := online.toInt_lt
    have hplain : (Value.number (.int online.toInt)).Plain := .int (by omega) (by omega)
    have hroom : (Value.number (.int online.toInt)).depth < maxDepth := maxDepth_pos
    rw [heartbeatJson, decodeJson_jsonWith f hplain, if_pos hroom]
    rfl

/-- A first byte of two without its second, and an opening bracket. -/
def brokenText : Bytes := [0xC3, 0x28]

theorem bodyValue_brokenText : bodyValue brokenText = .string ['\uFFFD', '('] := by
  have hp : Utf8.pieces brokenText = [none, some '('] := by
    rw [brokenText, Utf8.pieces, show Utf8.next 0xC3 [0x28] = (none, [0x28]) from rfl, Utf8.pieces,
      show Utf8.next 0x28 [] = (some '(', []) from rfl, Utf8.pieces]
  have hd : Utf8.decode? brokenText = none := by
    rw [Utf8.decode?, hp]
    rfl
  rw [bodyValue, if_neg (by decide), hd, Utf8.decodeLossy, hp]
  rfl

theorem decodeJson_written_brokenText :
    (bodyValue brokenText).Whole ∧
      decodeJson (toJson ⟨1, 5, 7, brokenText⟩) = .ok ⟨1, 5, 7, [0xEF, 0xBF, 0xBD, 0x28]⟩ := by
  have hwhole : (bodyValue brokenText).Whole := by
    rw [bodyValue_brokenText]
    exact .string _
  refine ⟨hwhole, ((decodeJson_written ⟨1, 5, 7, brokenText⟩).1 hwhole).trans ?_⟩
  rw [bodyValue_brokenText, if_neg (by decide)]
  rfl

/-- A body of brackets that the limit of nesting just lets through. -/
def deepBody : Frame :=
  { ver := 1, op := 5, seq := 0,
    body := Utf8.encode (List.replicate maxDepth '[' ++ List.replicate maxDepth ']') }

theorem bodyValue_deepBody : bodyValue deepBody.body = .nest 126 := by
  have hwrite := Value.write_nest 126
  rw [deepBody, ← show 126 + 1 = maxDepth from rfl, ← hwrite]
  exact bodyValue_write (Value.plain_nest 126) (Nat.le_of_eq (Value.depth_nest 126))

theorem deepBody_unread : ¬ ∃ body, decodeJson deepBody.toJson = .ok { deepBody with body } := by
  have hfull : ¬ (Value.nest 126).depth < maxDepth :=
    Nat.not_lt.2 (Nat.le_of_eq (Value.depth_nest 126).symm)
  rw [toJson, bodyValue_deepBody, decodeJson_jsonWith deepBody (Value.plain_nest 126), if_neg hfull]
  nofun

end PushGateway.Frame
