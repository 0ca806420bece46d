import Mathlib.Data.List.Forall2
import PushGateway.ControlPlane.Token
import PushGateway.Proofs.Text.Blank
import PushGateway.Proofs.Text.Decimal
import PushGateway.Proofs.Text.Utf8

/-!
The layout of a token. What is written in it is read back whatever blanks stand around the fields
and the codes; a grant laid out again asks for itself. Nothing but text in five or six fields is
accepted.
-/

namespace PushGateway.ControlPlane.Token

open Text

theorem trimmed_ofInt (n : Int) : Trimmed (Decimal.ofInt n) :=
  .of_forall fun _ hc =>
    have hn := Decimal.toNat_of_mem_ofInt hc
    not_isBlank_of_graphic (by omega)

theorem notMem_ofInt {sep : Char} (hsep : sep = '|' ∨ sep = ',') (n : Int) :
    sep ∉ Decimal.ofInt n := by
  intro hc
  have hn := Decimal.toNat_of_mem_ofInt hc
  obtain rfl | rfl := hsep <;> exact absurd hn (by decide)

abbrev Items (ops : List Int32) (items : List (List Char)) : Prop :=
  List.Forall₂ (fun op item => Padded (Decimal.ofInt op.toInt) item) ops items

theorem Items.notMem {sep : Char} (hsep : sep = '|' ∨ sep = ',') {ops : List Int32}
    {items : List (List Char)} (h : Items ops items) : ∀ item ∈ items, sep ∉ item := by
  have hblank : ¬ isBlank sep := by obtain rfl | rfl := hsep <;> decide
  refine notMem_of_padded hblank (List.forall₂_map_left_iff.2 h) ?_
  exact List.forall_mem_map.2 fun op _ => notMem_ofInt hsep op.toInt

theorem Items.mapM {ops : List Int32} {items : List (List Char)} (h : Items ops items) :
    (items.mapM fun item => Decimal.int32? (trim item)) = some ops := by
  induction h with
  | nil => rfl
  | @cons op item ops items hp _ ih =>
    rw [List.mapM_cons, trim_of_padded (trimmed_ofInt _) hp, Decimal.int32?_ofInt, ih]
    rfl

theorem Items.prepend {before : List Char} (hb : ∀ c ∈ before, isBlank c) {op : Int32}
    {ops : List Int32} {items : List (List Char)} (h : Items (op :: ops) items) :
    ∃ items', Items (op :: ops) items' ∧ before ++ join ',' items = join ',' items' := by
  cases h with
  | @cons _ item _ items hp hi =>
    refine ⟨(before ++ item) :: items, .cons (hp.prepend hb) hi, ?_⟩
    cases items with
    | nil => rfl
    | cons next items => rw [join_cons_cons, join_cons_cons, List.append_assoc]

theorem Items.append {after : List Char} (ha : ∀ c ∈ after, isBlank c) {op : Int32}
    {ops : List Int32} {items : List (List Char)} (h : Items (op :: ops) items) :
    ∃ items', Items (op :: ops) items' ∧ join ',' items ++ after = join ',' items' := by
  induction ops generalizing op items with
  | nil =>
    obtain _ | @⟨_, item, _, _, hp, _ | _⟩ := h
    exact ⟨[item ++ after], .cons (hp.append ha) .nil, rfl⟩
  | cons op' ops ih =>
    obtain _ | @⟨_, item, _, _, hp, hi⟩ := h
    obtain ⟨items', hi', hj⟩ := ih hi
    refine ⟨item :: items', .cons hp hi', ?_⟩
    cases hi with
    | cons =>
      cases hi' with
      | cons => rw [join_cons_cons, join_cons_cons, ← hj, List.append_assoc, List.cons_append]

def Codes (ops : List Int32) (s : List Char) : Prop := ∃ items, Items ops items ∧ s = join ',' items

theorem Codes.padded {op : Int32} {ops : List Int32} {codes s : List Char}
    (h : Codes (op :: ops) codes) (hp : Padded codes s) : Codes (op :: ops) s := by
  obtain ⟨items, hi, rfl⟩ := h
  obtain ⟨before, after, rfl, hb, ha⟩ := hp
  obtain ⟨items, hi, hj⟩ := hi.prepend hb
  rw [hj]
  exact hi.append ha

theorem Codes.bar_notMem {ops : List Int32} {s : List Char} (h : Codes ops s) : '|' ∉ s := by
  obtain ⟨items, hi, rfl⟩ := h
  intro hc
  obtain hc | ⟨item, hitem, hc⟩ := mem_join hc
  · exact absurd hc (by decide)
  · exact hi.notMem (.inl rfl) item hitem hc

theorem Codes.trim_ne_nil {op : Int32} {ops : List Int32} {s : List Char}
    (h : Codes (op :: ops) s) : trim s ≠ [] := by
  obtain ⟨_, hi, rfl⟩ := h
  cases hi with
  | @cons _ item _ items hp hi =>
    obtain ⟨c, cs, hc⟩ := List.exists_cons_of_ne_nil (Decimal.ofInt_ne_nil op.toInt)
    have hmem : c ∈ Decimal.ofInt op.toInt := hc ▸ List.mem_cons_self
    have hblank : ¬ isBlank c := (trimmed_ofInt op.toInt).1 c (hc ▸ rfl)
    intro ht
    have hj := trim_padded (join ',' (item :: items))
    rw [ht] at hj
    obtain hn | hb := hj.cases_of_mem (mem_join_of_mem ',' List.mem_cons_self (hp.subset hmem))
    · exact List.not_mem_nil hn
    · exact hblank hb

theorem Codes.parseList {ops : List Int32} {codes s : List Char} (h : Codes ops codes)
    (hp : Padded codes s) : Op.parseList s = some ops := by
  cases ops with
  | nil =>
    obtain ⟨_, ⟨⟩, rfl⟩ := h
    have ht : trim s = [] := trim_of_padded (Trimmed.of_forall nofun) hp
    rw [Op.parseList, ht]
    rfl
  | cons op ops =>
    have hs := h.padded hp
    have ht := hs.trim_ne_nil
    obtain ⟨items, hi, rfl⟩ := hs
    have hne : items ≠ [] := by
      rintro rfl
      cases hi
    rw [Op.parseList, if_neg (by simpa using ht), split_join hne (hi.notMem (.inr rfl)), hi.mapM]

/-- What a token says. Without seconds the interval is left to the node. -/
structure Content where
  mid : Int64
  key : List Char
  room : List Char
  platform : List Char
  accepts : List Int32
  seconds : Option UInt64

def Plain (s : List Char) : Prop := '|' ∉ s ∧ Trimmed s

structure Content.Plain (c : Content) : Prop where
  key : Token.Plain c.key
  room : Token.Plain c.room
  platform : Token.Plain c.platform

def Content.Written (c : Content) (s : List Char) : Prop :=
  ∃ codes fields, Codes c.accepts codes ∧
    List.Forall₂ Padded
      ([Decimal.ofInt c.mid.toInt, c.key, c.room, c.platform, codes] ++
        c.seconds.toList.map fun n => Decimal.ofNat n.toNat) fields ∧
    s = join '|' fields

def interval (seconds : Option UInt64) : Nanos := Nanos.ofSeconds (seconds.elim 0 UInt64.toNat)

def Content.grant (c : Content) (offered : String) : Grant where
  mid := c.mid
  key := if c.key.isEmpty then offered else String.ofList c.key
  room := String.ofList c.room
  platform := String.ofList c.platform
  accepts := c.accepts
  heartbeat := interval c.seconds

def Content.of (g : Grant) (seconds : Option UInt64) : Content where
  mid := g.mid
  key := g.key.toList
  room := g.room.toList
  platform := g.platform.toList
  accepts := g.accepts
  seconds := seconds

theorem Content.of_grant {g : Grant} {offered : String} (hk : g.key = "" → offered = "")
    {seconds : Option UInt64} (hs : interval seconds = g.heartbeat) :
    (Content.of g seconds).grant offered = g := by
  have hkey : (if g.key.toList.isEmpty then offered else g.key) = g.key := by
    split_ifs with h
    · have hg := String.toList_eq_nil_iff.1 (List.isEmpty_iff.1 h)
      rw [hg, hk hg]
    · rfl
  simp only [Content.grant, Content.of, hs, String.ofList_toList, hkey]

theorem Content.written (c : Content) : ∃ s, c.Written s := by
  refine ⟨_, join ',' (c.accepts.map fun op => Decimal.ofInt op.toInt), _, ⟨_, ?_, rfl⟩,
    List.forall₂_same.2 fun _ _ => Padded.refl _, rfl⟩
  exact List.forall₂_map_right_iff.2 (List.forall₂_same.2 fun op _ => Padded.refl _)

theorem parse_encode (s : List Char) (offered : String) :
    parse (Utf8.encode s) offered = (fields s).bind (·.grant offered) := by
  rw [parse, Utf8.decode?_encode]
  rfl

theorem Fields.grant_eq_ok_iff {f : Fields} {offered : String} {g : Grant} :
    f.grant offered = .ok g ↔ ∃ mid accepts seconds,
      Decimal.int64? (trim f.mid) = some mid ∧ Op.parseList f.accepts = some accepts ∧
      f.seconds = .ok seconds ∧ g = {
            mid, accepts
            key := if (trim f.key).isEmpty then offered else String.ofList (trim f.key)
            room := String.ofList (trim f.room)
            platform := String.ofList (trim f.platform)
            heartbeat := Nanos.ofSeconds seconds } := by
  constructor
  · intro h
    unfold Fields.grant at h
    split at h
    · split at h
      · cases hs : f.seconds with
        | error e => simp [hs, bind, Except.bind] at h
        | ok seconds =>
          rw [hs] at h
          exact ⟨_, _, seconds, ‹_›, ‹_›, rfl, (Except.ok.inj h).symm⟩
      · cases h
    · cases h
  · rintro ⟨mid, accepts, seconds, hm, ha, hs, rfl⟩
    rw [grant, hm, ha, hs]
    rfl

theorem Fields.seconds_lt {f : Fields} {n : Nat} (h : f.seconds = .ok n) : n < UInt64.size := by
  unfold Fields.seconds at h
  split at h
  · cases h
    decide
  · split at h
    · next hn =>
      cases h
      exact Decimal.lt_of_nat? hn
    · cases h

theorem fields_of_seconds {mid key room platform accepts : List Char} {rest : List (List Char)}
    (hbar : ∀ p ∈ mid :: key :: room :: platform :: accepts :: rest, '|' ∉ p)
    {seconds : Option UInt64}
    (hrest : List.Forall₂ Padded (seconds.toList.map fun n => Decimal.ofNat n.toNat) rest) :
    ∃ f : Fields, fields (join '|' (mid :: key :: room :: platform :: accepts :: rest)) = .ok f ∧
      f = { mid, key, room, platform, accepts, heartbeat := f.heartbeat } ∧
      f.seconds = .ok (seconds.elim 0 UInt64.toNat) := by
  rw [fields, split_join (List.cons_ne_nil _ _) hbar]
  cases seconds with
  | none =>
    cases hrest
    exact ⟨_, rfl, rfl, rfl⟩
  | some n =>
    obtain _ | @⟨_, heartbeat, _, _, hp, _ | _⟩ := hrest
    refine ⟨_, rfl, rfl, ?_⟩
    have ht : Trimmed (Decimal.ofNat n.toNat) :=
      Decimal.ofInt_natCast n.toNat ▸ trimmed_ofInt n.toNat
    dsimp only [Fields.seconds]
    rw [trim_of_padded ht hp, Decimal.nat64?_ofNat]
    rfl

theorem Content.Written.parse {c : Content} (hc : c.Plain) {s : List Char} (h : c.Written s)
    (offered : String) : parse (Utf8.encode s) offered = .ok (c.grant offered) := by
  obtain ⟨codes, parts, hcodes, hparts, rfl⟩ := h
  have hbar : ∀ p ∈ parts, '|' ∉ p := by
    refine notMem_of_padded (by decide) hparts ?_
    simp only [List.mem_append, List.mem_cons, List.mem_map, List.not_mem_nil, or_false]
    rintro core ((rfl | rfl | rfl | rfl | rfl) | ⟨n, -, rfl⟩)
    · exact notMem_ofInt (.inl rfl) c.mid.toInt
    · exact hc.key.1
    · exact hc.room.1
    · exact hc.platform.1
    · exact hcodes.bar_notMem
    · exact Decimal.ofInt_natCast n.toNat ▸ notMem_ofInt (.inl rfl) n.toNat
  obtain _ | ⟨hmid, _ | ⟨hkey, _ | ⟨hroom, _ | ⟨hplatform, _ | ⟨haccepts, hrest⟩⟩⟩⟩⟩ := hparts
  obtain ⟨f, hf, hparts, hseconds⟩ := fields_of_seconds hbar hrest
  have hm : Decimal.int64? (trim f.mid) = some c.mid := by
    rw [hparts, trim_of_padded (trimmed_ofInt _) hmid, Decimal.int64?_ofInt]
  have ha : Op.parseList f.accepts = some c.accepts := by
    rw [hparts]
    exact hcodes.parseList haccepts
  rw [parse_encode, hf]
  refine Fields.grant_eq_ok_iff.2 ⟨_, _, _, hm, ha, hseconds, ?_⟩
  rw [hparts, trim_of_padded hc.key.2 hkey, trim_of_padded hc.room.2 hroom,
    trim_of_padded hc.platform.2 hplatform]
  rfl

theorem parse_eq_ok {token : Bytes} {offered : String} {g : Grant}
    (h : parse token offered = .ok g) :
    ∃ s f, token = Utf8.encode s ∧ fields s = .ok f ∧ f.grant offered = .ok g := by
  unfold parse at h
  split at h
  · next s hs =>
    cases hf : fields s with
    | error e => simp [hf, bind, Except.bind] at h
    | ok f =>
      rw [hf] at h
      exact ⟨s, f, Utf8.decode?_eq_some_iff.1 hs, hf, h⟩
  · cases h

theorem fields_eq_ok {s : List Char} {f : Fields} (h : fields s = .ok f) :
    ((split '|' s).length = 5 ∨ (split '|' s).length = 6) ∧
      f.key ∈ split '|' s ∧ f.room ∈ split '|' s ∧ f.platform ∈ split '|' s := by
  unfold fields at h
  split at h
  · next hs =>
    cases h
    simp [hs]
  · next hs =>
    cases h
    simp [hs]
  · cases h

theorem plain_trim {s p : List Char} (hp : p ∈ split '|' s) :
    Plain (String.ofList (trim p)).toList := by
  rw [String.toList_ofList]
  exact ⟨fun hc => notMem_of_mem_split hp ((trim_padded p).subset hc), trim_trimmed p⟩

theorem Content.of_plain {s : List Char} {f : Fields} {offered : String} {g : Grant}
    (hf : fields s = .ok f) (hg : f.grant offered = .ok g) (ho : Token.Plain offered.toList)
    (seconds : Option UInt64) : (Content.of g seconds).Plain := by
  obtain ⟨-, hkey, hroom, hplatform⟩ := fields_eq_ok hf
  obtain ⟨mid, accepts, n, -, -, -, rfl⟩ := Fields.grant_eq_ok_iff.1 hg
  refine ⟨?_, plain_trim hroom, plain_trim hplatform⟩
  dsimp only [Content.of]
  split_ifs
  · exact ho
  · exact plain_trim hkey

theorem Fields.offered_of_key {f : Fields} {offered : String} {g : Grant}
    (hg : f.grant offered = .ok g) (hk : g.key = "") : offered = "" := by
  obtain ⟨mid, accepts, n, -, -, -, rfl⟩ := Fields.grant_eq_ok_iff.1 hg
  dsimp only at hk
  split_ifs at hk with he
  · exact hk
  · exact absurd (List.isEmpty_iff.2 (String.ofList_eq_empty_iff.1 hk)) he

theorem Fields.exists_seconds {f : Fields} {offered : String} {g : Grant}
    (hg : f.grant offered = .ok g) : ∃ seconds, interval seconds = g.heartbeat := by
  obtain ⟨mid, accepts, n, -, -, hs, rfl⟩ := Fields.grant_eq_ok_iff.1 hg
  refine ⟨some (UInt64.ofNat n), congrArg Nanos.ofSeconds ?_⟩
  exact UInt64.toNat_ofNat_of_lt (Fields.seconds_lt hs)

theorem parse_notUtf8 {token : Bytes} (h : ∀ s, token ≠ Utf8.encode s) (offered : String) :
    parse token offered = .error .notUtf8 := by
  cases hd : Utf8.decode? token with
  | none =>
    rw [parse, hd]
  | some s => exact absurd (Utf8.decode?_eq_some_iff.1 hd) (h s)

theorem fields_fieldCount {parts : List (List Char)} (hne : parts ≠ [])
    (hbar : ∀ p ∈ parts, '|' ∉ p) (h5 : parts.length ≠ 5) (h6 : parts.length ≠ 6) :
    fields (join '|' parts) = .error (.fieldCount parts.length) := by
  rw [fields, split_join hne hbar]
  split
  · exact absurd rfl h5
  · exact absurd rfl h6
  · rfl

/-- Reading inverts the layout, and accepts nothing that is not laid out in five or six fields. -/
theorem parse_layout (offered : String) :
    (∀ (c : Content) (s : List Char), c.Plain → c.Written s →
      parse (Utf8.encode s) offered = .ok (c.grant offered)) ∧
    (∀ token g, parse token offered = .ok g →
      (∃ parts, token = Utf8.encode (join '|' parts) ∧ (∀ p ∈ parts, '|' ∉ p) ∧
        (parts.length = 5 ∨ parts.length = 6)) ∧
      (Plain offered.toList → (∃ seconds, interval seconds = g.heartbeat) ∧
        ∀ seconds, interval seconds = g.heartbeat → (∃ s, (Content.of g seconds).Written s) ∧
          ∀ s, (Content.of g seconds).Written s → parse (Utf8.encode s) offered = .ok g)) ∧
    (∀ token, (∀ s, token ≠ Utf8.encode s) → parse token offered = .error .notUtf8) ∧
    ∀ parts, parts ≠ [] → (∀ p ∈ parts, '|' ∉ p) → parts.length ≠ 5 → parts.length ≠ 6 →
      parse (Utf8.encode (join '|' parts)) offered = .error (.fieldCount parts.length) := by
  refine ⟨fun c s hc hs => hs.parse hc offered, ?_, fun token h => parse_notUtf8 h offered, ?_⟩
  · intro token g h
    obtain ⟨s, f, rfl, hf, hg⟩ := parse_eq_ok h
    refine ⟨⟨split '|' s, by rw [join_split], fun p => notMem_of_mem_split, (fields_eq_ok hf).1⟩,
      fun ho => ?_⟩
    refine ⟨Fields.exists_seconds hg, fun seconds hs => ⟨Content.written _, fun s' hw => ?_⟩⟩
    have hgrant : (Content.of g seconds).grant offered = g :=
      Content.of_grant (Fields.offered_of_key hg) hs
    rw [hw.parse (Content.of_plain hf hg ho seconds) offered, hgrant]
  · intro parts hne hbar h5 h6
    rw [parse_encode, fields_fieldCount hne hbar h5 h6]
    rfl

/-- A visitor without a key, with blanks around some fields and codes. -/
def paddedToken : Content :=
  { mid := -42, key := [], room := "room 7".toList, platform := "web".toList, accepts := [1000, -3],
    seconds := some 30 }

theorem parse_layout_paddedToken :
    paddedToken.Plain ∧ paddedToken.Written "-42| |room 7|web\u2003| 1000, -3|30".toList ∧
      parse (Utf8.encode "-42| |room 7|web\u2003| 1000, -3|30".toList) "srv" =
      .ok (paddedToken.grant "srv") := by
  have hplain : paddedToken.Plain :=
    ⟨⟨by decide, by decide⟩, ⟨by decide, by decide⟩, ⟨by decide, by decide⟩⟩
  have hblank : ∀ c ∈ [' '], isBlank c := List.forall_mem_singleton.2 (by decide)
  have hwide : ∀ c ∈ ['\u2003'], isBlank c := List.forall_mem_singleton.2 (by decide)
  have hcodes : Codes paddedToken.accepts "1000, -3".toList :=
    ⟨["1000".toList, " -3".toList],
      .cons (Padded.refl _) (.cons ((Padded.refl _).prepend hblank) .nil), rfl⟩
  have hwritten : paddedToken.Written "-42| |room 7|web\u2003| 1000, -3|30".toList :=
    ⟨"1000, -3".toList,
      ["-42".toList, " ".toList, "room 7".toList, "web\u2003".toList, " 1000, -3".toList,
      "30".toList], hcodes,
      .cons (Padded.refl _) (.cons ((Padded.refl []).prepend hblank) (.cons (Padded.refl _)
        (.cons ((Padded.refl _).append hwide) (.cons ((Padded.refl _).prepend hblank)
          (.cons (Padded.refl _) .nil))))), rfl⟩
  exact ⟨hplain, hwritten, (parse_layout "srv").1 paddedToken _ hplain hwritten⟩

end PushGateway.ControlPlane.Token
