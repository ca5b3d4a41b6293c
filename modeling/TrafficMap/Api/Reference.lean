import TrafficMap.Api.Aggregator

/-!
# What the aggregator is for

A reference that keeps every recorded flow with the number of ticks before it.
Which end of a flow is the remote peer, which the LAN host, and in which
direction its bytes count, are stated here on the fields of a flow; a bucket
counts a list of flows when its total and its maps are the sums of what the
flows contribute.
-/

namespace TrafficMap.Api

open Tally

/-! ## Amounts as a monoid -/

namespace DataInfo

theorem zero_def : (0 : DataInfo) = ⟨0, 0, 0, 0⟩ := rfl

theorem add_def (d o : DataInfo) : d + o = d.merge o := rfl

instance : AddCommMonoid DataInfo where
  add_assoc a b c := by simp [add_def, merge, UInt64.add_assoc]
  zero_add a := by simp [add_def, merge, zero_def]
  add_zero a := by simp [add_def, merge, zero_def]
  add_comm a b := by simp [add_def, merge, UInt64.add_comm]
  nsmul := nsmulRec

def amount (bytes pkts : UInt64) (incoming : Bool) : DataInfo :=
  if incoming then ⟨bytes, 0, pkts, 0⟩ else ⟨0, bytes, 0, pkts⟩

theorem add_eq (d : DataInfo) (bytes pkts : UInt64) (incoming : Bool) :
    d.add bytes pkts incoming = d + amount bytes pkts incoming := by
  cases incoming <;> simp [add, amount, add_def, merge]

end DataInfo

/-! ## Attribution -/

structure End where
  addr : Option String
  country : Option String
  asn : Option ℤ
  isHome : Bool

structure Flow where
  bytes : UInt64
  pkts : UInt64
  service : Option String
  app : Option String
  src : End
  dst : End

/-- Read a flow; absent numbers are zero and absent flags false. -/
def flowOf (v : Json) : Flow where
  bytes := ((v.get "octets").bind Json.asU64).getD 0
  pkts := ((v.get "packets").bind Json.asU64).getD 0
  service := (v.get "service").bind Json.asStr
  app := (v.get "app").bind Json.asStr
  src :=
    { addr := (v.get "src_addr").bind Json.asStr
      country := (v.pointer ["src_geo", "country"]).bind Json.asStr
      asn := (v.get "src_as").bind Json.asI64
      isHome := ((v.pointer ["src_geo", "is_home"]).bind Json.asBool).getD false }
  dst :=
    { addr := (v.get "dst_addr").bind Json.asStr
      country := (v.pointer ["dst_geo", "country"]).bind Json.asStr
      asn := (v.get "dst_as").bind Json.asI64
      isHome := ((v.pointer ["dst_geo", "is_home"]).bind Json.asBool).getD false }

namespace Flow

def incoming (f : Flow) : Bool := f.dst.isHome && !f.src.isHome

def amount (f : Flow) : DataInfo := DataInfo.amount f.bytes f.pkts f.incoming

/-- The remote peer with its address: the source of an incoming flow, the
destination of an outgoing or transit one, and none inside the home network. -/
def peer (f : Flow) : Option (String × End) :=
  if f.src.isHome && f.dst.isHome then none
  else
    let remote := if f.incoming then f.src else f.dst
    remote.addr.map fun addr ↦ (addr, remote)

def lan (f : Flow) : Option String :=
  if f.src.isHome then f.src.addr else if f.dst.isHome then f.dst.addr else none

def dstKey (f : Flow) : Option String := f.peer.map Prod.fst

def countryKey (f : Flow) : Option String := f.peer.bind fun p ↦ p.2.country

/-- The label is the application, or else the peer's address; an absent number
or country is empty. -/
def hostOf (f : Flow) (addr : String) (remote : End) : HostKey :=
  (f.app.getD addr, ((remote.asn.filter fun n ↦ decide (0 < n)).map fun n ↦ toString n).getD "",
    remote.country.getD "")

def hostKey (f : Flow) : Option HostKey := f.peer.map fun p ↦ f.hostOf p.1 p.2

/-- What a flow contributes to a keyed axis: nothing if it has no octets. -/
def contribution {K : Type} (key : Flow → Option K) (f : Flow) : List (K × DataInfo) :=
  if f.bytes = 0 then [] else (key f).toList.map fun k ↦ (k, f.amount)

def totalContribution (f : Flow) : List DataInfo := if f.bytes = 0 then [] else [f.amount]

end Flow

def contributions {K : Type} (key : Flow → Option K) (vs : List Json) : List (K × DataInfo) :=
  vs.flatMap fun v ↦ (flowOf v).contribution key

def totalOf (vs : List Json) : DataInfo := (vs.flatMap fun v ↦ (flowOf v).totalContribution).sum

def peerCount (vs : List Json) : ℕ := ((contributions Flow.dstKey vs).map Prod.fst).dedup.length

/-! ## The reference -/

inductive Op
  | record (v : Json)
  | tick

def Aggregator.apply (a : Aggregator) : Op → Aggregator
  | .record v => a.record v
  | .tick => a.tick

def Aggregator.run (ops : List Op) : Aggregator := ops.foldl Aggregator.apply Aggregator.new

/-- Every flow with the number of ticks before it. -/
structure Reference where
  ticks : ℕ
  flows : List (ℕ × Json)

namespace Reference

def new : Reference := ⟨0, []⟩

def apply (r : Reference) : Op → Reference
  | .record v => { r with flows := r.flows ++ [(r.ticks, v)] }
  | .tick => { r with ticks := r.ticks + 1 }

def run (ops : List Op) : Reference := ops.foldl apply new

def period (r : Reference) (i : ℕ) : List Json :=
  (r.flows.filter fun f ↦ f.1 + i = r.ticks).map Prod.snd

def inWindow (r : Reference) (w : ℕ) : List Json :=
  (r.flows.filter fun f ↦ r.ticks < f.1 + w).map Prod.snd

end Reference

/-! ## Buckets that count -/

/-- A bucket with the sums of the flows `vs`; of the destination axis only if
`whole` says that nothing was left out there. -/
structure Counted (whole : Prop) (b : Bucket) (vs : List Json) : Prop where
  total : b.total = totalOf vs
  country : Counts id b.country (contributions Flow.countryKey vs)
  src : Counts id b.src (contributions Flow.lan vs)
  service : Counts id b.service (contributions Flow.service vs)
  host : Counts id b.host (contributions Flow.hostKey vs)
  dst : whole → Counts Prod.fst b.dst (contributions Flow.dstKey vs)

theorem contributions_append {K : Type} (key : Flow → Option K) (vs vs' : List Json) :
    contributions key (vs ++ vs') = contributions key vs ++ contributions key vs' :=
  List.flatMap_append

theorem totalOf_append (vs vs' : List Json) : totalOf (vs ++ vs') = totalOf vs + totalOf vs' := by
  simp [totalOf]

theorem contributions_singleton {K : Type} (key : Flow → Option K) (v : Json) :
    contributions key [v] = (flowOf v).contribution key := by
  simp [contributions]

theorem counted_empty (whole : Prop) : Counted whole Bucket.empty [] where
  total := rfl
  country := counts_empty id
  src := counts_empty id
  service := counts_empty id
  host := counts_empty id
  dst := fun _ ↦ counts_empty Prod.fst

theorem peerCount_le_append (vs vs' : List Json) : peerCount vs ≤ peerCount (vs ++ vs') := by
  rw [peerCount, peerCount, contributions_append, List.map_append]
  refine (List.subperm_of_subset (List.nodup_dedup _) fun k hk ↦ ?_).length_le
  rw [List.mem_dedup] at hk ⊢
  exact List.mem_append_left _ hk

/-! ## One more flow -/

def credit {K : Type} [DecidableEq K] (bytes pkts : UInt64) (incoming : Bool) (key : Option K)
    (m : Map K DataInfo) : Map K DataInfo :=
  match key with
  | some k => upsert k 0 (fun d ↦ d.add bytes pkts incoming) m
  | none => m

theorem counts_credit {K : Type} [DecidableEq K] (key : Flow → Option K) {m : Map K DataInfo}
    {f : Flow} {l : List (K × DataInfo)} (hbytes : f.bytes ≠ 0) (h : Counts id m l) :
    Counts id (credit f.bytes f.pkts f.incoming (key f) m) (l ++ f.contribution key) := by
  rw [Flow.contribution, if_neg hbytes]
  cases key f with
  | none => simpa [credit] using h
  | some k => exact h.upsert k rfl fun d ↦ DataInfo.add_eq d f.bytes f.pkts f.incoming

namespace Bucket

section Frame

variable (bytes pkts : UInt64) (incoming : Bool) (b : Bucket) (ip : String)
  (country : Option String)

theorem recordDst_eq : b.recordDst bytes pkts incoming ip country =
    { b with
      dst := if b.dst.keys.length < DST_CAP ∨ ip ∈ b.dst then
          upsert ip (0, country) (fun e ↦ (e.1.add bytes pkts incoming, e.2 <|> country)) b.dst
        else b.dst } := by
  rw [recordDst]
  split <;> rfl

theorem recordCountry_eq : b.recordCountry bytes pkts incoming country =
    { b with country := credit bytes pkts incoming country b.country } := by
  cases country <;> rfl

end Frame

def recordRemote (f : Flow) (b : Bucket) : Bucket :=
  match f.peer with
  | none => b
  | some (ip, remote) =>
      let b := b.recordDst f.bytes f.pkts f.incoming ip remote.country
      let b := b.recordCountry f.bytes f.pkts f.incoming remote.country
      { b with
        host := upsert (f.hostOf ip remote) 0 (fun d ↦ d.add f.bytes f.pkts f.incoming) b.host }

theorem recordPeer_eq (v : Json) (b : Bucket) :
    b.recordPeer v (flowOf v).bytes (flowOf v).pkts (flowOf v).src.isHome (flowOf v).dst.isHome =
      b.recordRemote (flowOf v) := by
  have hsrc : (flowOf v).src.addr = (v.get "src_addr").bind Json.asStr := rfl
  have hdst : (flowOf v).dst.addr = (v.get "dst_addr").bind Json.asStr := rfl
  rw [recordRemote, recordPeer, Flow.peer, Flow.incoming]
  cases (flowOf v).src.isHome <;> cases (flowOf v).dst.isHome
  · simp only [Bool.false_and, Bool.not_false, Bool.false_eq_true, if_false, if_true,
      Bool.and_true, hdst]
    cases (v.get "dst_addr").bind Json.asStr <;> rfl
  · simp only [Bool.not_true, Bool.and_false, Bool.not_false, Bool.and_true, Bool.false_eq_true,
      if_false, if_true, hsrc]
    cases (v.get "src_addr").bind Json.asStr <;> rfl
  · simp only [Bool.not_false, Bool.and_true, Bool.and_false, Bool.not_true, Bool.false_eq_true,
      if_false, if_true, hdst]
    cases (v.get "dst_addr").bind Json.asStr <;> rfl
  · rfl

theorem record_eq (v : Json) (b : Bucket) :
    b.record v =
      if (flowOf v).bytes = 0 then b
      else
        let f := flowOf v
        (({ b with total := b.total + f.amount } : Bucket).recordService v f.bytes f.pkts
          f.incoming |>.recordLan v f.bytes f.pkts f.incoming f.src.isHome f.dst.isHome
          |>.recordRemote f) := by
  have hamount := DataInfo.add_eq b.total (flowOf v).bytes (flowOf v).pkts (flowOf v).incoming
  dsimp only
  rw [Flow.amount, ← hamount, ← recordPeer_eq]
  rfl

variable (v : Json) (b : Bucket)

theorem record_of_empty (h : (flowOf v).bytes = 0) : b.record v = b := by
  rw [record_eq, if_pos h]

@[simp] theorem recordService_eq (bytes pkts : UInt64) (incoming : Bool) :
    b.recordService v bytes pkts incoming =
      { b with service := credit bytes pkts incoming (flowOf v).service b.service } := by
  rw [recordService, flowOf]
  cases (v.get "service").bind Json.asStr <;> rfl

@[simp] theorem recordLan_eq (bytes pkts : UInt64) (incoming : Bool) :
    b.recordLan v bytes pkts incoming (flowOf v).src.isHome (flowOf v).dst.isHome =
      { b with src := credit bytes pkts incoming (flowOf v).lan b.src } := by
  have hlan : (flowOf v).lan =
      if (flowOf v).src.isHome then (v.get "src_addr").bind Json.asStr
      else if (flowOf v).dst.isHome then (v.get "dst_addr").bind Json.asStr else none := rfl
  rw [recordLan, ← hlan]
  cases (flowOf v).lan <;> rfl

theorem recordRemote_eq (f : Flow) :
    b.recordRemote f =
      { b with
        dst := match f.peer with
          | some (ip, remote) =>
              if b.dst.keys.length < DST_CAP ∨ ip ∈ b.dst then
                upsert ip (0, remote.country) (fun e ↦
                  (e.1.add f.bytes f.pkts f.incoming, e.2 <|> remote.country)) b.dst
              else b.dst
          | none => b.dst
        country := credit f.bytes f.pkts f.incoming f.countryKey b.country
        host := credit f.bytes f.pkts f.incoming f.hostKey b.host } := by
  rw [recordRemote, Flow.countryKey, Flow.hostKey]
  cases f.peer with
  | none => rfl
  | some p =>
      simp only [recordDst_eq, recordCountry_eq]
      rfl

end Bucket

section Step

variable {whole whole' : Prop} {b : Bucket} {vs : List Json}

/-- One more flow, if the bucket has room for its peer. -/
theorem Counted.record (h : Counted whole b vs) (v : Json) (hmono : whole' → whole)
    (hroom : whole' → peerCount (vs ++ [v]) ≤ DST_CAP) :
    Counted whole' (b.record v) (vs ++ [v]) := by
  by_cases hbytes : (flowOf v).bytes = 0
  · have hnone {K : Type} (key : Flow → Option K) :
        contributions key (vs ++ [v]) = contributions key vs := by
      simp [contributions_append, contributions_singleton, Flow.contribution, hbytes]
    have htotal : totalOf (vs ++ [v]) = totalOf vs := by
      simp [totalOf, Flow.totalContribution, hbytes]
    rw [Bucket.record_of_empty v b hbytes]
    exact ⟨h.total.trans htotal.symm, by rw [hnone]; exact h.country, by rw [hnone]; exact h.src,
      by rw [hnone]; exact h.service, by rw [hnone]; exact h.host,
      fun hw ↦ by rw [hnone]; exact h.dst (hmono hw)⟩
  · have hrecord := Bucket.record_eq v b
    rw [if_neg hbytes] at hrecord
    simp only [Bucket.recordService_eq, Bucket.recordLan_eq, Bucket.recordRemote_eq] at hrecord
    rw [hrecord]
    constructor <;> simp only [contributions_append, contributions_singleton]
    · rw [totalOf_append, h.total]
      simp [totalOf, Flow.totalContribution, hbytes]
    · exact counts_credit Flow.countryKey hbytes h.country
    · exact counts_credit Flow.lan hbytes h.src
    · exact counts_credit Flow.service hbytes h.service
    · exact counts_credit Flow.hostKey hbytes h.host
    · intro hw
      have hcap := hroom hw
      simp only [peerCount, contributions_append, contributions_singleton] at hcap
      rw [Flow.contribution, if_neg hbytes, Flow.dstKey] at hcap ⊢
      cases hpeer : (flowOf v).peer with
      | none => simpa using h.dst (hmono hw)
      | some p =>
          rw [hpeer] at hcap
          exact (h.dst (hmono hw)).upsert_capped p.1 rfl
            (fun e ↦ DataInfo.add_eq e.1 _ _ _) hcap

end Step

end TrafficMap.Api
