import TrafficMap.Api.LiveFeed

/-!
# What a client of the live feed gets

Over every interleaving of the tasks, a WebSocket gets the sequence of the
broadcast from where it joined, with gaps only where more than its capacity
waited for the client.
-/

namespace TrafficMap.Api

open Broadcast

/-- The client as a receiver of the broadcast. -/
def Client.reader (c : Client) : Reader String := ⟨c.start, c.sent, c.missed⟩

section Clients

variable {b : Ops String} {retained : ℕ} {Owes : b.Chan → (ℕ → Option (List String)) → Prop}

/-- The client lets no more values wait than the broadcast was made for. -/
def KeepsUp (id : ℕ) (s : Feed b) : FeedAct → Prop
  | .recv id' => id' = id → ∀ c, s.clients id = some c → s.backlog c ≤ LIVE_CAPACITY
  | _ => True

/-- The channel owes each client the log from where it stands. -/
def ClientsInv (Owes : b.Chan → (ℕ → Option (List String)) → Prop) (s : Feed b) : Prop :=
  Tracks Owes s.channel s.log fun id ↦ (s.clients id).map Client.reader

namespace ClientsInv

variable {serde : Serde} {s s' : Feed b} {a : FeedAct}

theorem setClient {channel : b.Chan} {id : ℕ} {client : Option Client}
    (h : Tracks Owes channel s.log (Function.update (fun id ↦ (s.clients id).map Client.reader) id
      (client.map Client.reader))) : ClientsInv Owes (s.setClient channel id client) := by
  have hmap := Function.comp_update (Option.map Client.reader) s.clients id client
  exact (congrArg (Tracks Owes channel s.log) hmap).mpr h

theorem reader {id : ℕ} {c : Client} (h : s.clients id = some c) :
    (s.clients id).map Client.reader = some c.reader := by
  rw [h]
  rfl

variable (hb : Documented b LIVE_CAPACITY retained Owes)

include hb

theorem init (ov : Overrides) (apps : AppMap) : ClientsInv Owes (.init ov apps : Feed b) :=
  Tracks.channel hb

theorem send (h : ClientsInv Owes s) (payload : String) (value : Option Json) (out : String) :
    ClientsInv Owes { s with
      channel := b.send s.channel out
      bridge := .waiting
      turns := s.turns ++ [⟨payload, value, out⟩] } := by
  rw [ClientsInv, Feed.log, List.map_append]
  exact Tracks.send hb h out

theorem step (h : ClientsInv Owes s) (hstep : s.step serde a = some s') :
    ClientsInv Owes s' := by
  cases Feed.step_outcome hstep with
  | unheard | away => exact h
  | publish | connect | lose | take | skip | ended | override | overridePanic | label | labelPanic
  | record | loadOverrides | loadApps | tick => exact h
  | send => exact send hb h _ _ _
  | @join id hnone =>
      have hclient : (s.clients id).map Client.reader = none := by
        rw [hnone]
        rfl
      have htracks := Tracks.subscribe hb h hclient
      rw [Feed.log, List.length_map] at htracks
      exact setClient htracks
  | value hc hrecv => exact setClient (Tracks.value hb h (reader hc) hrecv)
  | lagged hc hrecv => exact setClient (Tracks.lagged hb h (reader hc) hrecv).2
  | leave => exact setClient (Tracks.drop hb h _)

theorem run {ov : Overrides} {apps : AppMap} {acts : List FeedAct}
    (hrun : Machine.run (Feed.step serde) (.init ov apps) acts = some s) : ClientsInv Owes s :=
  Machine.run_invariant (fun _ _ _ h hstep ↦ step hb h hstep) (init hb ov apps) hrun

/-- A client that keeps up is never told that it lags. -/
theorem recv_ne_lagged (h : ClientsInv Owes s) {id : ℕ} {c : Client}
    (hc : s.clients id = some c) (hup : KeepsUp id s (.recv id)) (n : ℕ) (channel : b.Chan) :
    b.recv s.channel id ≠ (.lagged n, channel) := by
  intro hrecv
  have hmany : retained < s.backlog c := (Tracks.lagged hb h (reader hc) hrecv).1
  have hretained := hb.retained_ge
  have hle := hup rfl c hc
  omega

/-- A client has something to read exactly if something waits for it. -/
theorem recv_isSome_iff (h : ClientsInv Owes s) {id : ℕ} {c : Client}
    (hc : s.clients id = some c) :
    (s.step serde (.recv id)).isSome ↔ 0 < s.backlog c := by
  have hread := Tracks.recv_empty_iff hb h (reader hc)
  have hnext : c.reader.next ≤ s.log.length := (h.follows id c.reader (reader hc)).next_le
  have hbacklog : s.backlog c = s.log.length - c.reader.next := rfl
  rw [Feed.step, Feed.stepRecv, hc, Option.bind_eq_bind, Option.bind_some]
  cases hrecv : b.recv s.channel id with
  | mk read channel =>
      rw [hrecv] at hread
      cases read with
      | value a =>
          have hne : c.reader.next ≠ s.log.length := by
            intro heq
            cases hread.mpr heq
          exact iff_of_true rfl (by omega)
      | lagged n =>
          have hne : c.reader.next ≠ s.log.length := by
            intro heq
            cases hread.mpr heq
          exact iff_of_true rfl (by omega)
      | empty =>
          have heq := hread.mp rfl
          exact iff_of_false Bool.false_ne_true (by omega)

end ClientsInv

/-- The client has missed nothing. -/
def Lossless (id : ℕ) (s : Feed b) : Prop := ∀ c, s.clients id = some c → c.missed = 0

theorem lossless_setClient {id id' : ℕ} {s : Feed b} (h : Lossless id s) {channel : b.Chan}
    {client : Option Client} (hclient : id' = id → ∀ c, client = some c → c.missed = 0) :
    Lossless id (s.setClient channel id' client) := by
  intro c hc
  rw [Feed.setClient] at hc
  dsimp only at hc
  by_cases hid : id = id'
  · rw [hid, Function.update_self] at hc
    exact hclient hid.symm c hc
  · rw [Function.update_of_ne hid] at hc
    exact h c hc

theorem lossless_step (hb : Documented b LIVE_CAPACITY retained Owes) {serde : Serde} {id : ℕ}
    {s s' : Feed b} {a : FeedAct} (hinv : ClientsInv Owes s) (h : Lossless id s)
    (hup : KeepsUp id s a) (hstep : s.step serde a = some s') : Lossless id s' := by
  cases Feed.step_outcome hstep with
  | unheard | publish | connect | lose | take | skip | ended | override | overridePanic | label
  | labelPanic | record | send | loadOverrides | loadApps | tick | away => exact h
  | join =>
      apply lossless_setClient h
      rintro - c ⟨⟩
      rfl
  | value hc hrecv =>
      apply lossless_setClient h
      rintro rfl c' ⟨⟩
      have hzero := h _ hc
      exact hzero
  | lagged hc hrecv =>
      apply lossless_setClient h
      rintro rfl c' -
      exact absurd hrecv (ClientsInv.recv_ne_lagged hb hinv hc hup _ _)
  | leave =>
      apply lossless_setClient h
      rintro - c ⟨⟩

theorem lossless_run (hb : Documented b LIVE_CAPACITY retained Owes) {serde : Serde}
    {ov : Overrides} {apps : AppMap} {acts : List FeedAct} {s : Feed b} {id : ℕ}
    (hup : Machine.Along (Feed.step serde) (KeepsUp id) (.init ov apps : Feed b) acts)
    (hrun : Machine.run (Feed.step serde) (.init ov apps) acts = some s) : Lossless id s := by
  have hinit : ClientsInv Owes (.init ov apps : Feed b) ∧ Lossless id (.init ov apps : Feed b) := by
    refine ⟨.init hb ov apps, ?_⟩
    rintro c ⟨⟩
  have hlast : ClientsInv Owes s ∧ Lossless id s :=
    Machine.run_invariant_along (I := fun s ↦ ClientsInv Owes s ∧ Lossless id s)
      (fun _ _ _ h hup hstep ↦ ⟨.step hb h.1 hstep, lossless_step hb h.1 h.2 hup hstep⟩) hinit hup
      hrun
  exact hlast.2

/-- What a client has been sent is the log from where it joined, in order and
each entry at most once; what it has not been sent it was told it missed, or it
waits for it; and it misses nothing unless it falls behind by more than the
capacity. -/
theorem clients_follow_log (hb : Documented b LIVE_CAPACITY retained Owes) {serde : Serde}
    {ov : Overrides} {apps : AppMap} {acts : List FeedAct} {s : Feed b}
    (hrun : Machine.run (Feed.step serde) (.init ov apps) acts = some s) {id : ℕ} {c : Client}
    (hc : s.clients id = some c) :
    c.sent.Sublist (s.log.drop c.start) ∧
      c.start + c.sent.length + c.missed + s.backlog c = s.log.length ∧
      ((s.step serde (.recv id)).isSome ↔ 0 < s.backlog c) ∧
      (Machine.Along (Feed.step serde) (KeepsUp id) (.init ov apps : Feed b) acts →
        c.missed = 0 ∧
          c.sent ++ s.log.drop (s.log.length - s.backlog c) = s.log.drop c.start) := by
  have hinv : ClientsInv Owes s := .run hb hrun
  have hfollows := hinv.follows id c.reader (ClientsInv.reader hc)
  have hnext : c.start + c.sent.length + c.missed ≤ s.log.length := hfollows.next_le
  refine ⟨hfollows.sublist.trans ((List.take_sublist _ _).drop _), ?_,
    ClientsInv.recv_isSome_iff hb hinv hc, fun hup ↦ ?_⟩
  · rw [Feed.backlog]
    omega
  · have hzero := lossless_run hb hup hrun c hc
    refine ⟨hzero, ?_⟩
    rw [Feed.backlog, Nat.sub_sub_self hnext]
    exact hfollows.got_append_drop hzero

end Clients

/-- Two clients of a ring, one of which joins between the messages and leaves. -/
theorem clients_follow_log_watching : ∃ (s : Feed (Ring.ops String)) (c : Client),
    Machine.run (Feed.step plainSerde) (.init ∅ ∅) watching = some s ∧ s.clients 7 = some c ∧
      c.sent = ["hello"] ∧ s.backlog c = 1 ∧
      c.sent.Sublist (s.log.drop c.start) ∧
      c.start + c.sent.length + c.missed + s.backlog c = s.log.length ∧
      ((s.step plainSerde (.recv 7)).isSome ↔ 0 < s.backlog c) := by
  have hwatch : (Machine.run (Feed.step plainSerde) (.init ∅ ∅ : Feed (Ring.ops String))
      watching).bind (fun s ↦ (s.clients 7).map fun c ↦ (c.sent, s.backlog c)) =
        some (["hello"], 1) := by
    decide
  obtain ⟨s, hrun, hs⟩ := Option.bind_eq_some_iff.mp hwatch
  obtain ⟨c, hc, hsent⟩ := Option.map_eq_some_iff.mp hs
  obtain ⟨hsent, hbacklog⟩ := Prod.mk.inj hsent
  have hfollow := clients_follow_log (Ring.documented String LIVE_CAPACITY) hrun hc
  exact ⟨s, c, hrun, hc, hsent, hbacklog, hfollow.1, hfollow.2.1, hfollow.2.2.1⟩

end TrafficMap.Api
