import Mathlib.Data.List.Basic
import PushGateway.Config.Environment
import PushGateway.Proofs.Table
import PushGateway.Proofs.Text.Blank
import PushGateway.Proofs.Text.Decimal

/-!
Settings written to the environment and read again. Each setting goes to a variable of its own, as a
text of its kind; the reader of that kind gives it back, so settings that pass their check are
loaded as they were.
-/

namespace PushGateway.Config

inductive Setting
  | texts (l : List String)
  | flag (b : Bool)
  | word (n : Nat)
  | count (n : Nat)
  | duration (t : Nanos)
  | optional (s : Option String)

namespace Setting

def text? : Setting → Option String
  | texts l => some (.ofList (Text.join ',' (l.map String.toList)))
  | flag b => some (if b then "true" else "false")
  | word n => some (.ofList (Text.Decimal.ofNat n))
  | count n => some (.ofList (Text.Decimal.ofNat n))
  | duration t => some (.ofList (Text.Decimal.ofNat t.parts.1))
  | optional s => s

/-- The text says all there is: numbers are within their words, durations are whole seconds, the
entries of a list are neither empty nor padded and hold no comma, and no text stands for one that is
not there. -/
def Plain : Setting → Prop
  | texts l => ∀ s ∈ l, s ≠ "" ∧ Text.Trimmed s.toList ∧ ',' ∉ s.toList
  | flag _ => True
  | word n => n < UInt32.size
  | count n => n < UInt64.size
  | duration t => t.parts.1 < UInt64.size ∧ t.parts.2 = 0
  | optional s => s ≠ some ""

instance : DecidablePred Plain
  | texts l => inferInstanceAs (Decidable (∀ s ∈ l, s ≠ "" ∧ Text.Trimmed s.toList ∧
      ',' ∉ s.toList))
  | flag _ => .isTrue trivial
  | word n => inferInstanceAs (Decidable (n < UInt32.size))
  | count n => inferInstanceAs (Decidable (n < UInt64.size))
  | duration t => inferInstanceAs (Decidable (t.parts.1 < UInt64.size ∧ t.parts.2 = 0))
  | optional s => inferInstanceAs (Decidable (s ≠ some ""))

end Setting

def settings (c : Config) : Table String Setting :=
  [("COMET_TCP_BIND", .texts c.tcpBind), ("COMET_WEBSOCKET_BIND", .texts c.websocketBind),
    ("COMET_TCP_KEEPALIVE", .flag c.tcpKeepalive), ("COMET_TCP_SNDBUF", .word c.tcpSndbuf),
    ("COMET_TCP_RCVBUF", .word c.tcpRcvbuf), ("COMET_ACCEPT_TASKS", .count c.acceptTasks),
    ("COMET_READER_POOLS", .count c.readerPools), ("COMET_READ_BUF", .count c.readBuf),
    ("COMET_READ_BUF_SIZE", .count c.readBufSize), ("COMET_WRITER_POOLS", .count c.writerPools),
    ("COMET_WRITE_BUF", .count c.writeBuf), ("COMET_WRITE_BUF_SIZE", .count c.writeBufSize),
    ("COMET_TIMER_SHARDS", .count c.timerShards), ("COMET_TIMER_SIZE", .count c.timerSize),
    ("COMET_HANDSHAKE_TIMEOUT", .duration c.handshakeTimeout),
    ("COMET_HEARTBEAT", .duration c.heartbeatInterval), ("COMET_CLI_PROTO", .count c.cliProto),
    ("COMET_SVR_PROTO", .count c.svrProto), ("COMET_MAX_BODY_SIZE", .count c.maxBodySize),
    ("COMET_BUCKET_SIZE", .count c.bucketSize), ("COMET_BUCKET_CHANNEL", .count c.bucketChannel),
    ("COMET_BUCKET_ROOM", .count c.bucketRoom), ("COMET_ROUTINE_AMOUNT", .count c.routineAmount),
    ("COMET_ROUTINE_SIZE", .count c.routineSize), ("COMET_RPC_TIMEOUT", .duration c.rpcTimeout),
    ("COMET_ONLINE_TICK", .duration c.onlineTick), ("COMET_SERVER_ID", .optional c.serverId),
    ("COMET_DEBUG", .flag c.debug)]

/-- The environment in which the settings are written, and nothing else. -/
def written (c : Config) : Environment := fun name => (c.settings.get? name).bind Setting.text?

theorem nodup_keys_settings (c : Config) : c.settings.keys.Nodup := by
  have hkeys : c.settings.keys = Table.keys (settings {}) := rfl
  rw [hkeys]
  decide +kernel

theorem written_of_mem {c : Config} {name : String} {v : Setting} (h : (name, v) ∈ c.settings) :
    c.written name = v.text? := by
  rw [written, Table.get?_of_mem c.nodup_keys_settings h]
  rfl

namespace Environment

variable {env : Environment} {name : String}

theorem items_join {l : List String} (h : (Setting.texts l).Plain) :
    items (.ofList (Text.join ',' (l.map String.toList))) = l := by
  rw [items, String.toList_ofList]
  cases l with
  | nil => rfl
  | cons s l =>
    have hsep : ∀ p ∈ (s :: l).map String.toList, ',' ∉ p :=
      List.forall_mem_map.2 fun s hs => (h s hs).2.2
    have htrim : ((s :: l).map String.toList).map Text.trim = (s :: l).map String.toList := by
      rw [List.map_map]
      exact List.map_congr_left fun s hs => Text.trim_of_padded (h s hs).2.1 (.refl _)
    have hfull : ∀ p ∈ (s :: l).map String.toList, (! p.isEmpty) = true :=
      List.forall_mem_map.2 fun s hs => by simpa using (h s hs).1
    have hne : (s :: l).map String.toList ≠ [] := List.cons_ne_nil _ _
    rw [Text.split_join hne hsep, htrim, List.filter_eq_self.2 hfull, List.map_map]
    exact (List.map_congr_left fun s _ => String.ofList_toList).trans (List.map_id _)

theorem list_of_text {l : List String} (h : (Setting.texts l).Plain)
    (hv : env name = (Setting.texts l).text?) (default : List String) :
    env.list name default = l := by
  rw [list, hv, Setting.text?, Option.map_some, items_join h, Option.getD_some]

theorem flag_of_text {b : Bool} (hv : env name = (Setting.flag b).text?) (default : Bool) :
    env.flag name default = b := by
  rw [flag, hv]
  cases b with
  | false => exact (by decide +kernel : isTrue "false" = false)
  | true => exact (by decide +kernel : isTrue "true" = true)

theorem read_of_text {α : Type} {parse : List Char → Option α} {s : List Char} {a : α}
    (h : parse s = some a) (hv : env name = some (.ofList s)) (default : α) :
    env.read name parse default = a := by
  rw [read, hv, Option.bind_some, String.toList_ofList, h, Option.getD_some]

theorem word_of_text {n : Nat} (h : (Setting.word n).Plain) (hv : env name = (Setting.word n).text?)
    (default : Nat) : env.word name default = n :=
  read_of_text (Text.Decimal.nat?_ofNat h) hv default

theorem nat_of_text {n : Nat} (h : (Setting.count n).Plain)
    (hv : env name = (Setting.count n).text?) (default : Nat) : env.nat name default = n :=
  read_of_text (Text.Decimal.nat?_ofNat h) hv default

theorem seconds_of_text {t : Nanos} (h : (Setting.duration t).Plain)
    (hv : env name = (Setting.duration t).text?) (default : Nanos) :
    env.seconds name default = t := by
  have hwhole : Nanos.ofSeconds t.parts.1 = t := Nat.div_mul_cancel (Nat.dvd_of_mod_eq_zero h.2)
  have hread :
      (Text.Decimal.nat64? (Text.Decimal.ofNat t.parts.1)).map Nanos.ofSeconds = some t := by
    rw [Text.Decimal.nat64?, Text.Decimal.nat?_ofNat h.1, Option.map_some, hwhole]
  exact read_of_text hread hv default

end Environment

attribute [ext] Config

theorem fromVariables_written {c : Config} (h : ∀ p ∈ c.settings, p.2.Plain) :
    fromVariables c.written = c := by
  have hlist {name : String} {l : List String} (hm : (name, .texts l) ∈ c.settings)
      (default : List String) : c.written.list name default = l :=
    Environment.list_of_text (h _ hm) (written_of_mem hm) default
  have hflag {name : String} {b : Bool} (hm : (name, .flag b) ∈ c.settings) (default : Bool) :
      c.written.flag name default = b :=
    Environment.flag_of_text (written_of_mem hm) default
  have hword {name : String} {n : Nat} (hm : (name, .word n) ∈ c.settings) (default : Nat) :
      c.written.word name default = n :=
    Environment.word_of_text (h _ hm) (written_of_mem hm) default
  have hnat {name : String} {n : Nat} (hm : (name, .count n) ∈ c.settings) (default : Nat) :
      c.written.nat name default = n :=
    Environment.nat_of_text (h _ hm) (written_of_mem hm) default
  have hseconds {name : String} {t : Nanos} (hm : (name, .duration t) ∈ c.settings)
      (default : Nanos) : c.written.seconds name default = t :=
    Environment.seconds_of_text (h _ hm) (written_of_mem hm) default
  apply Config.ext <;> dsimp only [fromVariables]
  case tcpBind | websocketBind => exact hlist (by simp [settings]) _
  case tcpKeepalive | debug => exact hflag (by simp [settings]) _
  case tcpSndbuf | tcpRcvbuf => exact hword (by simp [settings]) _
  case handshakeTimeout | heartbeatInterval | rpcTimeout | onlineTick =>
    exact hseconds (by simp [settings]) _
  case serverId =>
    have hm : ("COMET_SERVER_ID", .optional c.serverId) ∈ c.settings := by simp [settings]
    have hserver : c.serverId ≠ some "" := h _ hm
    rw [written_of_mem hm, Setting.text?]
    cases hs : c.serverId with
    | none => rfl
    | some s =>
      have hne : s ≠ "" := fun he => hserver (hs.trans (congrArg some he))
      rw [Option.filter_some, if_pos (decide_eq_true hne)]
  all_goals exact hnat (by simp [settings]) _

theorem ofEnvironment_eq (env : Environment) :
    ofEnvironment env = (fromVariables env).validate.map fun _ => fromVariables env := by
  rw [ofEnvironment]
  cases (fromVariables env).validate <;> rfl

/-- Settings that pass the check are loaded as they were written. Whatever the environment, what is
loaded passes the check, and else the check's own error comes instead. -/
theorem ofEnvironment_written :
    (∀ c : Config, c.validate = .ok () → (∀ p ∈ c.settings, p.2.Plain) →
      ofEnvironment c.written = .ok c) ∧
      ∀ env : Environment,
      (∃ e, (fromVariables env).validate = .error e ∧ ofEnvironment env = .error e) ∨
      ∃ c : Config, c.validate = .ok () ∧ ofEnvironment env = .ok c := by
  refine ⟨fun c hvalid hplain => ?_, fun env => ?_⟩
  · rw [ofEnvironment_eq, fromVariables_written hplain, hvalid]
    rfl
  · rw [ofEnvironment_eq]
    cases hv : (fromVariables env).validate with
    | error e => exact .inl ⟨e, rfl, rfl⟩
    | ok _ => exact .inr ⟨fromVariables env, hv, rfl⟩

theorem ofEnvironment_written_testing :
    ofEnvironment (written { testing with
        tcpBind := ["127.0.0.1:0", "[::1]:0"], serverId := none }) =
      .ok { testing with tcpBind := ["127.0.0.1:0", "[::1]:0"], serverId := none } :=
  ofEnvironment_written.1 _ (by decide +kernel) (by decide +kernel)

end PushGateway.Config
