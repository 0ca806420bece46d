import Mathlib.Data.List.Forall2
import PushGateway.Frame
import PushGateway.Proofs.Text.Blank
import PushGateway.Proofs.Text.Decimal
import PushGateway.Proofs.Text.Utf8

/-!
Lists of codes. A text lists codes if it is blank, and then there are none, or if each piece between
commas is a code of 32 bits, with blanks around it or not. A body is such a text in UTF-8: whatever
does not read as a character reads as one that stands in no list.
-/

namespace PushGateway

open Text

/-- The code in decimal, with blanks around it or not. -/
def Op.Item (piece : List Char) (op : Int32) : Prop :=
  ∃ core, Padded core piece ∧ Decimal.SignedDecimal core op.toInt

inductive Op.Lists : List Char → List Int32 → Prop
  | blank {s : List Char} : (∀ c ∈ s, isBlank c) → Lists s []
  | items {pieces : List (List Char)} {ops : List Int32} : pieces ≠ [] →
      List.Forall₂ Op.Item pieces ops → Lists (join ',' pieces) ops

def Frame.Lists (f : Frame) (ops : List Int32) : Prop :=
  ∃ s, f.body = Utf8.encode s ∧ Op.Lists s ops

namespace Op

variable {s piece core : List Char} {pieces : List (List Char)} {op : Int32}
  {ops : List Int32} {n : Int}

theorem not_isBlank_of_signedDecimal (h : Decimal.SignedDecimal core n) :
    ∀ c ∈ core, ¬ isBlank c := by
  intro c hc
  apply not_isBlank_of_graphic
  obtain rfl | rfl | hdigit := h.sign_or_digit c hc
  · decide
  · decide
  · omega

theorem Item.mem (h : Item piece op) {c : Char} (hc : c ∈ piece) :
    isBlank c ∨ c = '+' ∨ c = '-' ∨ 0x30 ≤ c.toNat ∧ c.toNat ≤ 0x39 := by
  obtain ⟨core, hp, hs⟩ := h
  exact (hp.cases_of_mem hc).symm.imp_right (hs.sign_or_digit c)

theorem Item.exists_not_isBlank (h : Item piece op) : ∃ c ∈ piece, ¬ isBlank c := by
  obtain ⟨core, hp, hs⟩ := h
  obtain ⟨c, hc⟩ := List.exists_mem_of_ne_nil core hs.ne_nil
  exact ⟨c, hp.subset hc, not_isBlank_of_signedDecimal hs c hc⟩

theorem int32?_trim_iff : Decimal.int32? (trim piece) = some op ↔ Item piece op := by
  rw [Decimal.int32?_eq_some_iff]
  constructor
  · exact fun h => ⟨trim piece, trim_padded piece, h⟩
  · rintro ⟨core, hp, h⟩
    rwa [trim_of_padded (.of_forall (not_isBlank_of_signedDecimal h)) hp]

theorem mapM_iff : (pieces.mapM fun piece => Decimal.int32? (trim piece)) = some ops ↔
    List.Forall₂ Item pieces ops := by
  induction pieces generalizing ops with
  | nil => simp
  | cons piece pieces ih =>
    simp only [List.mapM_cons, Option.bind_eq_bind, Option.bind_eq_some_iff, Option.pure_def,
      Option.some.injEq, int32?_trim_iff, ih, List.forall₂_cons_left_iff]
    constructor
    · rintro ⟨op, hop, ops, hops, rfl⟩
      exact ⟨op, ops, hop, hops, rfl⟩
    · rintro ⟨op, ops, hop, hops, rfl⟩
      exact ⟨op, hop, ops, hops, rfl⟩

theorem exists_item_of_mem (h : List.Forall₂ Item pieces ops) :
    ∀ piece ∈ pieces, ∃ op, Item piece op := by
  induction h with
  | nil => exact nofun
  | cons hi _ ih => exact List.forall_mem_cons.2 ⟨⟨_, hi⟩, ih⟩

theorem isEmpty_trim_iff : (trim s).isEmpty ↔ ∀ c ∈ s, isBlank c := by
  rw [List.isEmpty_iff]
  constructor
  · intro hs c hc
    have hp := trim_padded s
    rw [hs] at hp
    exact (hp.cases_of_mem hc).resolve_left List.not_mem_nil
  · intro hs
    exact trim_of_padded (.of_forall nofun) ⟨s, [], by simp, hs, nofun⟩

theorem parseList_eq_some_iff : parseList s = some ops ↔ Lists s ops := by
  rw [parseList]
  constructor
  · intro h
    split_ifs at h with hs
    · cases h
      exact .blank (isEmpty_trim_iff.1 hs)
    · rw [← join_split ',' s]
      exact .items (split_ne_nil ',' s) (mapM_iff.1 h)
  · intro h
    cases h with
    | blank hs => rw [if_pos (isEmpty_trim_iff.2 hs)]
    | @items pieces _ hne hp =>
      have hitem := exists_item_of_mem hp
      have hcomma (piece : List Char) (hpiece : piece ∈ pieces) : ',' ∉ piece := by
        intro hc
        obtain ⟨op, hi⟩ := hitem piece hpiece
        exact absurd (hi.mem hc) (by decide)
      obtain ⟨piece, hpiece⟩ := List.exists_mem_of_ne_nil pieces hne
      obtain ⟨op, hi⟩ := hitem piece hpiece
      obtain ⟨c, hc, hblank⟩ := hi.exists_not_isBlank
      rw [if_neg fun hs => hblank (isEmpty_trim_iff.1 hs c (mem_join_of_mem ',' hpiece hc)),
        split_join hne hcomma]
      exact mapM_iff.2 hp

theorem Lists.notMem_fault (h : Lists s ops) : '\uFFFD' ∉ s := by
  intro hc
  cases h with
  | blank hs => exact absurd (hs _ hc) (by decide)
  | items hne hp =>
    obtain hcomma | ⟨piece, hpiece, hc⟩ := mem_join hc
    · cases hcomma
    · obtain ⟨op, hi⟩ := exists_item_of_mem hp piece hpiece
      exact absurd (hi.mem hc) (by decide)

end Op

theorem Frame.parseList_iff {f : Frame} {ops : List Int32} :
    Op.parseList (Utf8.decodeLossy f.body) = some ops ↔ f.Lists ops := by
  rw [Op.parseList_eq_some_iff]
  constructor
  · exact fun h => ⟨_, (Utf8.encode_decodeLossy h.notMem_fault).symm, h⟩
  · rintro ⟨s, hs, h⟩
    rwa [hs, Utf8.decodeLossy_encode]

end PushGateway
