import Mathlib.Data.List.Nodup
import Mathlib.Tactic.Common
import PushGateway.Directory

/-!
What a bucket has been told, the latest first. A channel is put once, in no room, moved while it
is there and deleted once; a successor under its key may come in between.
-/

namespace PushGateway

inductive BucketOp
  | put (id : String) (c : Nat)
  | changeRoom (id : String) (c : Nat)
  | closeRoom (id : String)
  | del (c : Nat)

namespace BucketOp

def apply (b : Nat) (d : Directory) : BucketOp → Directory
  | .put id c => (d.put b id c).2
  | .changeRoom id c => (d.changeRoom b id c).2
  | .closeRoom id => (d.closeRoom b id).2
  | .del c => d.del b c

/-- The directory after the operations of a history, the latest of which comes first. -/
def after (b : Nat) (d : Directory) : List BucketOp → Directory
  | [] => d
  | op :: h => op.apply b (after b d h)

def live : List BucketOp → List Nat
  | [] => []
  | .put _ c :: h => c :: live h
  | .changeRoom _ _ :: h => live h
  | .closeRoom _ :: h => live h
  | .del c :: h => (live h).erase c

def latest (key : Nat → String) (k : String) : List BucketOp → Option Nat
  | [] => none
  | .put _ c :: h => if key c = k then some c else latest key k h
  | .changeRoom _ _ :: h => latest key k h
  | .closeRoom _ :: h => latest key k h
  | .del _ :: h => latest key k h

def asked (c : Nat) : List BucketOp → String
  | [] => ""
  | .put id c' :: h => if c' = c then id else asked c h
  | .changeRoom id c' :: h => if c' = c then id else asked c h
  | .closeRoom _ :: h => asked c h
  | .del _ :: h => asked c h

/-- Whether the room of a channel was closed since the channel came into it. Moving to the id it has
already leaves a channel where it is. -/
def abandoned (c : Nat) : List BucketOp → Bool
  | [] => false
  | .put _ c' :: h => if c' = c then false else abandoned c h
  | .changeRoom id c' :: h => if c' = c ∧ id ≠ asked c h then false else abandoned c h
  | .closeRoom id :: h => id = asked c h || abandoned c h
  | .del _ :: h => abandoned c h

/-- The histories in which each of the channels is put at most once, then moved, then deleted at
most once. -/
inductive Legal (channels : Nat) : List BucketOp → Prop
  | nil : Legal channels []
  | put {h : List BucketOp} {id : String} {c : Nat} : Legal channels h → c < channels →
      (∀ id, BucketOp.put id c ∉ h) → Legal channels (.put id c :: h)
  | changeRoom {h : List BucketOp} {id : String} {c : Nat} : Legal channels h → c ∈ live h →
      Legal channels (.changeRoom id c :: h)
  | closeRoom {h : List BucketOp} {id : String} : Legal channels h →
      Legal channels (.closeRoom id :: h)
  | del {h : List BucketOp} {c : Nat} : Legal channels h → c ∈ live h → Legal channels (.del c :: h)

theorem put_of_mem_live {c : Nat} {h : List BucketOp} (hc : c ∈ live h) :
    ∃ id, BucketOp.put id c ∈ h := by
  induction h with
  | nil => cases hc
  | cons op h ih =>
    cases op with
    | put id c' =>
      rcases List.mem_cons.1 hc with rfl | hc
      · exact ⟨id, .head _⟩
      · obtain ⟨id, hi⟩ := ih hc
        exact ⟨id, .tail _ hi⟩
    | changeRoom id c' =>
      obtain ⟨id, hi⟩ := ih hc
      exact ⟨id, .tail _ hi⟩
    | closeRoom id =>
      obtain ⟨id, hi⟩ := ih hc
      exact ⟨id, .tail _ hi⟩
    | del c' =>
      obtain ⟨id, hi⟩ := ih (List.mem_of_mem_erase hc)
      exact ⟨id, .tail _ hi⟩

theorem latest_key {key : Nat → String} {k : String} {h : List BucketOp} {c : Nat}
    (hl : latest key k h = some c) : key c = k := by
  induction h with
  | nil => cases hl
  | cons op h ih =>
    cases op with
    | put id c' =>
      simp only [latest] at hl
      split_ifs at hl with hk
      · cases hl
        exact hk
      · exact ih hl
    | changeRoom id c' => exact ih hl
    | closeRoom id => exact ih hl
    | del c' => exact ih hl

theorem Legal.live_nodup {n : Nat} {h : List BucketOp} (hl : Legal n h) : (live h).Nodup := by
  induction hl with
  | nil => exact .nil
  | put _ _ hn ih =>
    refine List.nodup_cons.2 ⟨?_, ih⟩
    intro hc
    obtain ⟨id, hi⟩ := put_of_mem_live hc
    exact hn id hi
  | changeRoom _ _ ih => exact ih
  | closeRoom _ ih => exact ih
  | del _ _ ih => exact ih.erase _

theorem Legal.live_lt {n : Nat} {h : List BucketOp} (hl : Legal n h) {c : Nat} (hc : c ∈ live h) :
    c < n := by
  induction hl with
  | nil => cases hc
  | put _ hlt _ ih =>
    rcases List.mem_cons.1 hc with rfl | hc
    · exact hlt
    · exact ih hc
  | changeRoom _ _ ih => exact ih hc
  | closeRoom _ ih => exact ih hc
  | del _ _ ih => exact ih (List.mem_of_mem_erase hc)

end BucketOp

end PushGateway
