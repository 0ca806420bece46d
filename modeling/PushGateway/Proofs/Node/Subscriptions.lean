import PushGateway.Proofs.Directory.History
import PushGateway.Proofs.Node.Authentication
import PushGateway.Proofs.Node.Service
import PushGateway.Proofs.Operation

/-!
What a channel is pushed. Whoever last mentioned a code, the list that came with the grant or a
frame of the client whose body is a list, decides whether it is wanted; a body that is no list is
answered like any other and changes nothing.
-/

namespace PushGateway

/-- The frame is about what to push, its body is a list, and the code stands in it. -/
def Frame.Mentions (f : Frame) (op : Int32) : Prop :=
  (f.op = Op.sub ∨ f.op = Op.unsub) ∧ ∃ ops, f.Lists ops ∧ op ∈ ops

/-- Of the accepted codes and the frames that follow, what mentions the code last asks for it. -/
def Wanted (accepts : List Int32) (fs : List Frame) (op : Int32) : Prop :=
  (op ∈ accepts ∧ ∀ f ∈ fs, ¬ f.Mentions op) ∨
  ∃ before f after, fs = before ++ f :: after ∧ f.op = Op.sub ∧ f.Mentions op ∧
  ∀ g ∈ after, ¬ g.Mentions op

def Frame.Revises (f : Frame) (op : Int32) (wanted : Prop) : Prop :=
  f.Mentions op ∧ f.op = Op.sub ∨ ¬ f.Mentions op ∧ wanted

/-- What may be done with a node: moves, frames handled for some channel out of turn, calls to a
bucket. -/
inductive Action
  | move (m : Move)
  | operate (caller : Option Nat) (c b : Nat) (f : Frame)
  | bucket (b : Nat) (op : BucketOp)

def Frame.codes (f : Frame) : List Int32 := (Op.parseList (Text.Utf8.decodeLossy f.body)).getD []

def Frame.listed (f : Frame) : Frame :=
  f.echoed (if f.op = Op.sub then Op.subReply else Op.unsubReply)

section

variable {f : Frame} {op : Int32} {accepts : List Int32} {fs : List Frame}

theorem Frame.mem_codes_iff : op ∈ f.codes ↔ ∃ ops, f.Lists ops ∧ op ∈ ops := by
  rw [codes]
  cases h : Op.parseList (Text.Utf8.decodeLossy f.body) with
  | none =>
    refine ⟨nofun, fun ⟨ops, hops, _⟩ => ?_⟩
    cases h.symm.trans (parseList_iff.2 hops)
  | some ops =>
    refine ⟨fun hop => ⟨ops, parseList_iff.1 h, hop⟩, fun ⟨ops', hops, hop⟩ => ?_⟩
    cases h.symm.trans (parseList_iff.2 hops)
    exact hop

theorem Frame.codes_eq_nil (h : ¬ ∃ ops, f.Lists ops) : f.codes = [] :=
  List.eq_nil_iff_forall_not_mem.2 fun _ hop => h ((mem_codes_iff.1 hop).imp fun _ => And.left)

theorem wanted_nil : Wanted accepts [] op ↔ op ∈ accepts := by
  constructor
  · rintro (⟨h, -⟩ | ⟨before, f, after, h, -⟩)
    · exact h
    · simp at h
  · exact fun h => .inl ⟨h, nofun⟩

theorem snoc_eq_append_cons {g : Frame} {before after : List Frame}
    (h : fs ++ [f] = before ++ g :: after) :
    (g = f ∧ after = []) ∨ ∃ rest, after = rest ++ [f] ∧ fs = before ++ g :: rest := by
  obtain rfl | ⟨rest, last, rfl⟩ := List.eq_nil_or_concat' after
  · exact .inl ⟨(List.append_inj_right' h rfl |> List.singleton_inj.1).symm, rfl⟩
  · rw [← List.cons_append, ← List.append_assoc] at h
    obtain ⟨hfs, hlast⟩ := List.append_inj' h rfl
    rw [List.singleton_inj.1 hlast]
    exact .inr ⟨rest, rfl, hfs⟩

theorem Frame.revises_of_mentions {wanted : Prop} (h : f.Mentions op) : f.Revises op wanted ↔
    f.op = Op.sub := by
  simp only [Revises, h, true_and, not_true_eq_false, false_and, or_false]

theorem Frame.revises_of_not {wanted : Prop} (h : ¬ f.Mentions op) :
    f.Revises op wanted ↔ wanted := by
  simp only [Revises, h, not_false_eq_true, false_and, true_and, false_or]

theorem wanted_snoc : Wanted accepts (fs ++ [f]) op ↔ f.Revises op (Wanted accepts fs op) := by
  by_cases h : f.Mentions op
  · rw [Frame.revises_of_mentions h]
    constructor
    · rintro (⟨-, hnone⟩ | ⟨before, g, after, he, hsub, -, hnone⟩)
      · exact absurd h (hnone f (by simp))
      · obtain ⟨rfl, rfl⟩ | ⟨rest, rfl, -⟩ := snoc_eq_append_cons he
        · exact hsub
        · exact absurd h (hnone f (by simp))
    · exact fun hsub => .inr ⟨fs, f, [], rfl, hsub, h, nofun⟩
  · rw [Frame.revises_of_not h]
    refine or_congr (and_congr_right fun _ => ?_) ⟨?_, ?_⟩
    · rw [List.forall_mem_append, List.forall_mem_singleton]
      exact and_iff_left h
    · rintro ⟨before, g, after, he, hsub, hg, hnone⟩
      obtain ⟨rfl, rfl⟩ | ⟨rest, rfl, rfl⟩ := snoc_eq_append_cons he
      · exact absurd hg h
      · exact ⟨before, g, rest, rfl, hsub, hg, fun g' hg' => hnone g' (List.mem_append_left _ hg')⟩
    · rintro ⟨before, g, after, rfl, hsub, hg, hnone⟩
      refine ⟨before, g, after ++ [f], by simp, hsub, hg, ?_⟩
      rw [List.forall_mem_append, List.forall_mem_singleton]
      exact ⟨hnone, h⟩

end

namespace Channel

variable {ch : Channel} {ops : List Int32} {op : Int32}

theorem needsPush_iff : ch.needsPush op ↔ op ∈ ch.watched := List.contains_iff_mem

theorem needsPush_watch : (ch.watch ops).needsPush op ↔ ch.needsPush op ∨ op ∈ ops := by
  simp only [needsPush_iff, watch, List.mem_append, List.mem_filter]
  by_cases h : op ∈ ch.watched <;> simp [h]

theorem needsPush_unwatch : (ch.unwatch ops).needsPush op ↔ ch.needsPush op ∧ op ∉ ops := by
  simp [needsPush_iff, unwatch]

theorem watch_nil (ch : Channel) : ch.watch [] = ch := by
  simp [watch]

theorem unwatch_nil (ch : Channel) : ch.unwatch [] = ch := by
  simp [unwatch]

end Channel

namespace Node

def act (n : Node) : Action → Node
  | .move m => n.move m
  | .operate caller c b f => (n.operate caller c b f).2
  | .bucket b op => { n with directory := op.apply b n.directory }

def afterActions (n : Node) : List Action → Node
  | [] => n
  | a :: h => (n.afterActions h).act a

def handled (n : Node) (c : Nat) : Action → Option Frame
  | .move m => (n.served m).bind fun (_, s, f) =>
      if s.channel = c ∧ f.op ≠ Op.heartbeat then some f else none
  | .operate _ c' _ f => if c' = c then some f else none
  | .bucket _ _ => none

def handledIn (n : Node) (c : Nat) : List Action → List Frame
  | [] => []
  | a :: h => n.handledIn c h ++ ((n.afterActions h).handled c a).toList

variable {n n' : Node} {c d : Nat} {f : Frame} {op : Int32}

theorem needsPush_of_sameWatch (h : n.directory.lobby.SameWatch n'.directory.lobby)
    (hc : c < n.directory.lobby.channels.size) (op : Int32) :
    (n'.channel c).needsPush op = (n.channel c).needsPush op := h.needsPush hc op

theorem modifyChannel_id (n : Node) (c : Nat) {f : Channel → Channel} (hf : ∀ ch, f ch = ch) :
    n.modifyChannel c f = n := by
  obtain rfl : f = id := funext hf
  have hid : n.directory.lobby.channels.modify c id = n.directory.lobby.channels := by
    apply Array.ext
    · exact Array.size_modify
    · intro k hk hk'
      rw [Array.getElem_modify]
      split_ifs <;> rfl
  rw [modifyChannel, Lobby.modify, hid]
  rfl

theorem operate_sub (n : Node) (caller : Option Nat) (c b : Nat) (hf : f.op = Op.sub) :
    n.operate caller c b f = (.reply f.listed, n.modifyChannel c (·.watch f.codes)) := by
  have hroom : f.op ≠ Op.changeRoom := by rw [hf]; decide
  simp only [operate, if_neg hroom, if_pos hf, Frame.listed, Frame.codes]

theorem operate_unsub (n : Node) (caller : Option Nat) (c b : Nat) (hf : f.op = Op.unsub) :
    n.operate caller c b f = (.reply f.listed, n.modifyChannel c (·.unwatch f.codes)) := by
  have hroom : f.op ≠ Op.changeRoom := by rw [hf]; decide
  have hsub : f.op ≠ Op.sub := by rw [hf]; decide
  simp only [operate, if_neg hroom, if_neg hsub, if_pos hf, Frame.listed, Frame.codes]

theorem operate_of_not_lists (n : Node) (caller : Option Nat) (c b : Nat)
    (hf : f.op = Op.sub ∨ f.op = Op.unsub) (hl : ¬ ∃ ops, f.Lists ops) :
    n.operate caller c b f = (.reply f.listed, n) := by
  rcases hf with hf | hf
  · rw [operate_sub n caller c b hf, Frame.codes_eq_nil hl, modifyChannel_id n c Channel.watch_nil]
  · rw [operate_unsub n caller c b hf, Frame.codes_eq_nil hl,
      modifyChannel_id n c Channel.unwatch_nil]

theorem operate_sameWatch (n : Node) (caller : Option Nat) (c b : Nat)
    (hf : ¬ (f.op = Op.sub ∨ f.op = Op.unsub)) :
    n.directory.lobby.SameWatch (n.operate caller c b f).2.directory.lobby := by
  obtain ⟨hsub, hunsub⟩ := not_or.1 hf
  simp only [operate, if_neg hsub, if_neg hunsub]
  split_ifs
  · have hroom :=
      n.directory.changeRoom_sameWatch b (String.ofList (Text.Utf8.decodeLossy f.body)) c
    generalize n.directory.changeRoom b _ c = moved at hroom ⊢
    obtain ⟨e | u, d⟩ := moved <;> exact hroom
  · have hcall : (n.callReceive caller (n.channel c).mid f).2.directory = n.directory :=
      answer_directory ..
    generalize n.callReceive caller (n.channel c).mid f = called at hcall ⊢
    obtain ⟨r | _, n'⟩ := called <;> exact .of_channels (congrArg (·.lobby.channels) hcall)
  · exact .refl _

theorem operate_size (n : Node) (caller : Option Nat) (c b : Nat) (f : Frame) :
    n.directory.lobby.channels.size ≤ (n.operate caller c b f).2.directory.lobby.channels.size :=
  (n.operate_quiet 0 caller c b f).lobby.size

theorem operate_needsPush (caller : Option Nat) (b : Nat) (hc : c < n.directory.lobby.channels.size)
    (f : Frame) (op : Int32) :
    ((n.operate caller c b f).2.channel c).needsPush op ↔
      f.Revises op ((n.channel c).needsPush op) := by
  by_cases hlist : f.op = Op.sub ∨ f.op = Op.unsub
  · have hcodes : op ∈ f.codes ↔ f.Mentions op :=
      Frame.mem_codes_iff.trans (and_iff_right hlist).symm
    rcases hlist with hsub | hunsub
    · rw [operate_sub n caller c b hsub, modifyChannel_here hc, Channel.needsPush_watch, hcodes,
        Frame.Revises]
      tauto
    · have hne : f.op ≠ Op.sub := by rw [hunsub]; decide
      rw [operate_unsub n caller c b hunsub, modifyChannel_here hc,
        Channel.needsPush_unwatch, hcodes, Frame.Revises]
      tauto
  · rw [Frame.revises_of_not fun h => hlist h.1,
      needsPush_of_sameWatch (n.operate_sameWatch caller c b hlist) hc]

theorem operate_needsPush_of_ne (caller : Option Nat) (b : Nat)
    (hd : d < n.directory.lobby.channels.size) (hne : d ≠ c) (f : Frame) (op : Int32) :
    ((n.operate caller c b f).2.channel d).needsPush op = (n.channel d).needsPush op := by
  by_cases hlist : f.op = Op.sub ∨ f.op = Op.unsub
  · rcases hlist with hsub | hunsub
    · rw [operate_sub n caller c b hsub, channel_modifyChannel, if_neg fun h => hne h.1]
    · rw [operate_unsub n caller c b hunsub, channel_modifyChannel, if_neg fun h => hne h.1]
  · exact needsPush_of_sameWatch (n.operate_sameWatch caller c b hlist) hd op

theorem bucket_sameWatch (d : Directory) (b : Nat) (op : BucketOp) :
    d.lobby.SameWatch (op.apply b d).lobby := by
  cases op with
  | put id c => exact d.put_sameWatch b id c
  | changeRoom id c => exact d.changeRoom_sameWatch b id c
  | closeRoom id => exact d.closeRoom_sameWatch b id
  | del c => exact d.del_sameWatch b c

/-- An action handles no frame and changes nobody's subscriptions, or handles one frame for one
channel and changes nothing else about them. -/
theorem act_cases (n : Node) (a : Action) :
    ((∀ c, n.handled c a = none) ∧ n.directory.lobby.SameWatch (n.act a).directory.lobby) ∨
    ∃ (k : Node) (caller : Option Nat) (d b : Nat) (f : Frame),
      (∀ c, n.handled c a = if d = c then some f else none) ∧
      n.directory.lobby.SameWatch k.directory.lobby ∧
      (k.operate caller d b f).2.directory.lobby.SameWatch (n.act a).directory.lobby := by
  cases a with
  | operate caller d b f => exact .inr ⟨n, caller, d, b, f, fun _ => rfl, .refl _, .refl _⟩
  | bucket b op => exact .inl ⟨fun _ => rfl, bucket_sameWatch n.directory b op⟩
  | move m =>
    cases hm : n.served m with
    | none =>
      exact .inl ⟨fun c => by rw [handled, hm, Option.bind_none], (move_keepsWatches hm).watch⟩
    | some served =>
      obtain ⟨i, s, f⟩ := served
      by_cases hf : f.op = Op.heartbeat
      · refine .inl ⟨fun c => ?_, (heartbeat_keepsWatches hm hf).watch⟩
        rw [handled, hm, Option.bind_some]
        exact if_neg fun h => h.2 hf
      · obtain ⟨k, hk, hserve⟩ := move_of_served hm
        have hserved := k.serve_keepsWatches i s hf
        rw [← hserve] at hserved
        refine .inr ⟨k, _, _, _, f, fun c => ?_, (nextIncoming_keepsWatches hk).watch,
          hserved.watch⟩
        rw [handled, hm, Option.bind_some]
        simp only [hf, ne_eq, not_false_eq_true, and_true]

theorem act_size (n : Node) (a : Action) :
    n.directory.lobby.channels.size ≤ (n.act a).directory.lobby.channels.size := by
  rcases n.act_cases a with ⟨-, hact⟩ | ⟨k, caller, d, b, f, -, hk, hact⟩
  · exact hact.size
  · exact Nat.le_trans hk.size (Nat.le_trans (k.operate_size caller d b f) hact.size)

theorem act_needsPush (hc : c < n.directory.lobby.channels.size) (a : Action) (op : Int32) :
    ((n.act a).channel c).needsPush op ↔ match n.handled c a with
      | none => (n.channel c).needsPush op
      | some f => f.Revises op ((n.channel c).needsPush op) := by
  rcases n.act_cases a with ⟨hnone, hact⟩ | ⟨k, caller, d, b, f, hhandled, hk, hact⟩
  · rw [hnone, needsPush_of_sameWatch hact hc]
  · have hck := Nat.lt_of_lt_of_le hc hk.size
    have hco := Nat.lt_of_lt_of_le hck (k.operate_size caller d b f)
    rw [hhandled, needsPush_of_sameWatch hact hco, ← needsPush_of_sameWatch hk hc]
    split_ifs with hd
    · subst hd
      exact operate_needsPush caller b hck f op
    · rw [operate_needsPush_of_ne caller b hck (Ne.symm hd)]

theorem afterActions_size (n : Node) (h : List Action) :
    n.directory.lobby.channels.size ≤ (n.afterActions h).directory.lobby.channels.size := by
  induction h with
  | nil => exact Nat.le_refl _
  | cons a h ih => exact Nat.le_trans ih ((n.afterActions h).act_size a)

theorem afterActions_needsPush {accepts : List Int32} (hc : c < n.directory.lobby.channels.size)
    (hn : ∀ op, (n.channel c).needsPush op ↔ op ∈ accepts) (h : List Action) (op : Int32) :
    ((n.afterActions h).channel c).needsPush op ↔ Wanted accepts (n.handledIn c h) op := by
  induction h with
  | nil => exact (hn op).trans wanted_nil.symm
  | cons a h ih =>
    have hstep := act_needsPush (Nat.lt_of_lt_of_le hc (n.afterActions_size h)) a op
    rw [handledIn]
    cases hf : (n.afterActions h).handled c a with
    | none =>
      rw [hf] at hstep
      rw [Option.toList_none, List.append_nil]
      exact hstep.trans ih
    | some f =>
      rw [hf] at hstep
      rw [Option.toList_some, wanted_snoc, ← ih]
      exact hstep

theorem enroll_needsPush (n : Node) (i : Nat) (g : ControlPlane.Grant) :
    n.directory.lobby.channels.size < (n.enroll i g).directory.lobby.channels.size ∧
      ∀ op, ((n.enroll i g).channel n.directory.lobby.channels.size).needsPush op ↔
      op ∈ g.accepts := by
  have hfrom := (n.enroll_keepsWatches_from i g).watch
  have hlt : n.directory.lobby.channels.size <
      (n.directory.lobby.addChannel (n.newChannel i g)).2.channels.size := by
    simp [Lobby.addChannel]
  refine ⟨Nat.lt_of_lt_of_le hlt hfrom.size, fun op => ?_⟩
  rw [needsPush_of_sameWatch hfrom hlt]
  have hnew : (n.directory.lobby.addChannel (n.newChannel i g)).2.channel
    n.directory.lobby.channels.size =
      n.newChannel i g := (Lobby.channel_addChannel ..).trans (if_pos rfl)
  rw [Channel.needsPush_iff]
  change op ∈ ((n.directory.lobby.addChannel (n.newChannel i g)).2.channel _).watched ↔ _
  rw [hnew, newChannel_watched]

/-- A code is pushed to the channel of a session exactly if the last to mention it, of the codes of
the grant and the frames handled for the channel whose whole body is a list, is the grant or a frame
that asks for it, whatever else is done in between. A body that is no list is answered all the same
and changes nothing, and what is no such frame changes no subscription. -/
theorem needsPush_iff_wanted :
    (∀ (n : Node) (i : Nat) (g : ControlPlane.Grant) (h : List Action) (op : Int32),
      let start := n.enroll i g
      let c := n.directory.lobby.channels.size
      ((start.afterActions h).channel c).needsPush op ↔ Wanted g.accepts (start.handledIn c h) op) ∧
      (∀ f : Frame, f.op = Op.sub ∨ f.op = Op.unsub → (¬ ∃ ops, f.Lists ops) →
        (∀ (n : Node) (caller : Option Nat) (c b : Nat),
        n.operate caller c b f = (.reply f.listed, n)) ∧ ∀ (n : Node) (i : Nat) (s : Session),
        n.serve i s f = n.reply i s f.listed) ∧
      ∀ (n : Node) (c : Nat) (a : Action), c < n.directory.lobby.channels.size →
      (∀ f ∈ n.handled c a, ¬ (f.op = Op.sub ∨ f.op = Op.unsub)) →
      ∀ op, (((n.act a).channel c).needsPush op ↔ (n.channel c).needsPush op) := by
  refine ⟨fun n i g h op => ?_, fun f hf hl => ⟨fun n caller c b => ?_, fun n i s => ?_⟩,
    fun n c a hc ha op => ?_⟩
  · obtain ⟨hc, hg⟩ := n.enroll_needsPush i g
    exact afterActions_needsPush hc hg h op
  · exact n.operate_of_not_lists caller c b hf hl
  · have hbeat : f.op ≠ Op.heartbeat := by rcases hf with hf | hf <;> rw [hf] <;> decide
    rw [serve, if_neg hbeat, operate_of_not_lists n _ _ _ hf hl]
  · have hstep := act_needsPush hc a op
    cases hf : n.handled c a with
    | none =>
      rw [hf] at hstep
      exact hstep
    | some f =>
      rw [hf] at hstep
      exact hstep.trans (Frame.revises_of_not fun hm => ha f hf hm.1)

/-- The list `5,x` that is none, and a room that is closed while somebody waits for code 5. -/
theorem needsPush_iff_wanted_unread :
    let n := new Config.testing none ⟨0⟩
    let f : Frame := { op := Op.unsub, body := [0x35, 0x2C, 0x78] }
    let start := n.enroll 0 {
      mid := 7, key := "k", room := "", platform := "web", accepts := [5], heartbeat := 0 }
    n.operate none 0 0 f = (.reply { f with op := Op.unsubReply }, n) ∧
      (((start.act (.bucket 0 (.closeRoom "hall"))).channel 0).needsPush 5 ↔
      (start.channel 0).needsPush 5) := by
  intro n f start
  have hread : Op.parseList (Text.Utf8.decodeLossy f.body) = none := by decide +kernel
  have hlist : ¬ ∃ ops, f.Lists ops :=
    fun ⟨ops, h⟩ => by cases hread.symm.trans (Frame.parseList_iff.2 h)
  have hclosed : ∀ g ∈ start.handled 0 (.bucket 0 (.closeRoom "hall")),
    ¬ (g.op = Op.sub ∨ g.op = Op.unsub) :=
    fun g hg => (Option.not_mem_none g hg).elim
  exact ⟨(needsPush_iff_wanted.2.1 f (.inr rfl) hlist).1 n none 0 0,
    needsPush_iff_wanted.2.2 start 0 _ (n.enroll_needsPush 0 _).1 hclosed 5⟩

end Node

end PushGateway
