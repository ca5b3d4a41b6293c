import TrafficMap.Lib.Table
import Mathlib.Data.Rat.Floor

/-!
# The flow buffer

`flowStream.ts`: flows become comets on the map, in one buffer that the live
channel, the recent flows and a replay push to.  Timers and requests that are
under way belong to the state.  Where things are drawn is a parameter: the
offsets of home hosts and the paths are computed with trigonometry.
-/

namespace TrafficMap.Web

open Sql

abbrev MAX_FLOWS : ℕ := 4000
abbrev DDOS_WINDOW_MS : ℚ := 60000
abbrev DDOS_SRC_THRESHOLD : ℕ := 30
abbrev PARTICLE_BYTES : ℚ := 4000000
abbrev PARTICLE_MAX : ℤ := 64
abbrev STREAM_MIN_MS : ℚ := 1500
abbrev STREAM_MAX_MS : ℚ := 24000
abbrev REPLAY_MS : ℚ := 15000

/-! ## Flows -/

structure Geo where
  lat : Option ℚ
  lon : ℚ
  isHome : Bool

structure Flow where
  srcAddr : String
  dstAddr : String
  protocol : Option ℕ := none
  octets : Option ℚ := none
  recvSec : Option ℚ := none
  flowStart : Option ℚ := none
  flowFinish : Option ℚ := none
  srcGeo : Option Geo := none
  dstGeo : Option Geo := none

abbrev Point := ℚ × ℚ

inductive ProtoKey
  | tcp
  | udp
  | icmp
  | icmp6
  | igmp
  | gre
  | esp
  | sctp
  | ospf
  | other
deriving DecidableEq

def protoKey (p : Option ℕ) : ProtoKey :=
  match p with
  | some 6 => .tcp
  | some 17 => .udp
  | some 1 => .icmp
  | some 58 => .icmp6
  | some 2 => .igmp
  | some 47 => .gre
  | some 50 => .esp
  | some 51 => .esp
  | some 132 => .sctp
  | some 89 => .ospf
  | _ => .other

structure LiveFlow where
  flow : Flow
  born : ℚ
  src : Point
  dst : Point
  path : List Point
  snapped : Bool
  ddos : Bool
  proto : ProtoKey

/-- The loaded cables, hubs, coast lines and home coordinate. -/
structure Scene where
  /-- `HOME_REF` moved by `hashOffset`. -/
  homePoint : String → Point
  flowPath : Point → Point → List Point × Bool

/-! ## Sources of a destination -/

abbrev Sources := Table String (Table String ℚ)

def ddosScore (dst src : String) (now : ℚ) (sources : Sources) : Bool × Sources :=
  let seen : Table String ℚ := ((sources.lookup dst).getD ∅).insert src now
  let m := Table.select (fun _ t ↦ if DDOS_WINDOW_MS < now - t then none else some t) seen
  (decide (DDOS_SRC_THRESHOLD < m.keys.length), sources.insert dst m)

def endPoint (scene : Scene) (addr : String) (g : Geo) (lat : ℚ) : Point :=
  if g.isHome then scene.homePoint addr else (g.lon, lat)

def toLive (scene : Scene) (flow : Flow) (born : ℚ) (sources : Sources) :
    Option LiveFlow × Sources :=
  match flow.srcGeo, flow.dstGeo with
  | some s, some d =>
      match s.lat, d.lat with
      | some slat, some dlat =>
          let src := endPoint scene flow.srcAddr s slat
          let dst := endPoint scene flow.dstAddr d dlat
          if src = dst then (none, sources) -- truly degenerate
          else
            let (path, snapped) := scene.flowPath src dst
            let (ddos, sources) := ddosScore flow.dstAddr flow.srcAddr born sources
            (some ⟨flow, born, src, dst, path, snapped, ddos, protoKey flow.protocol⟩, sources)
      | _, _ => (none, sources)
  | _, _ => (none, sources)

/-! ## The buffer -/

/-- A flow of a replay that waits for its turn. -/
structure Timer where
  due : ℚ
  seq : ℕ
  flow : Flow

/-- The steps of the effect that loads the page's data. -/
inductive Phase
  | loading
  | config
  | recent
  | connected
deriving DecidableEq

structure Stream where
  flows : List LiveFlow
  live : Bool
  replaySeq : ℕ
  timers : List Timer
  /-- How many requests of `goLive` are under way. -/
  recents : ℕ
  sources : Sources
  scene : Scene
  phase : Phase
  /-- `totalRef`. -/
  total : ℕ
  rateWindow : List ℚ

namespace Stream

variable (s : Stream)

/-- The number of comets. -/
def comets (octets : Option ℚ) : ℕ :=
  (max 1 (min PARTICLE_MAX ⌊octets.getD 0 / PARTICLE_BYTES + 1 / 2⌋)).toNat

def spread (flow : Flow) (n : ℕ) : ℚ :=
  let durMs := match flow.flowStart, flow.flowFinish with
    | some start, some finish => |finish - start|
    | _, _ => 0
  if n ≤ 1 then 0
  else max STREAM_MIN_MS (min STREAM_MAX_MS (if durMs = 0 then n * 200 else durMs))

def push (now : ℚ) (flow : Flow) : Stream :=
  match toLive s.scene flow now s.sources with
  | (none, sources) => { s with sources := sources }
  | (some base, sources) =>
      let n := comets flow.octets
      let clones := (List.range n).map fun i : ℕ ↦
        if i = 0 then base else { base with born := now + i / n * spread flow n }
      let buf := s.flows ++ clones
      { s with
        flows := buf.drop (buf.length - MAX_FLOWS)
        sources := sources
        total := s.total + 1
        rateWindow := s.rateWindow ++ [now] }

def pushAll (now : ℚ) (flows : List Flow) : Stream := flows.foldl (fun s f ↦ s.push now f) s

/-! ## Live and replay -/

def recvOrder (f g : Flow) : Bool := decide (f.recvSec.getD 0 ≤ g.recvSec.getD 0)

def replayTimers (now : ℚ) (seq : ℕ) (flows : List Flow) : List Timer :=
  let sorted := flows.mergeSort recvOrder
  let first := (sorted.head?.bind Flow.recvSec).getD 0
  let last := (sorted.getLast?.bind Flow.recvSec).getD (first + 1)
  let span := max 1 (last - first)
  sorted.map fun f ↦ ⟨now + (f.recvSec.getD first - first) / span * REPLAY_MS, seq, f⟩

def replay (now : ℚ) (flows : List Flow) : Stream :=
  let seq := s.replaySeq + 1
  { s with
    live := false
    flows := []
    replaySeq := seq
    timers := s.timers ++ replayTimers now seq flows }

/-- A pending replay is cancelled by its number. -/
def goLive : Stream :=
  { s with replaySeq := s.replaySeq + 1, live := true, flows := [], recents := s.recents + 1 }

/-- The reply to a request of `goLive`, or its failure. -/
def onRecent (now : ℚ) (reply : Option (List Flow)) : Option Stream :=
  match s.recents with
  | 0 => none
  | k + 1 =>
      let s := { s with recents := k }
      some (match reply with
        | some flows => s.pushAll now flows.reverse
        | none => s)

def onTimer (now : ℚ) (i : ℕ) : Option Stream :=
  s.timers[i]?.map fun timer ↦
    let s := { s with timers := s.timers.eraseIdx i }
    if s.replaySeq = timer.seq then s.push now timer.flow else s

/-- The gate of `ws.onmessage`; a malformed message is ignored. -/
def onMessage (now : ℚ) (message : Option Flow) : Stream :=
  match s.live, message with
  | true, some flow => s.push now flow
  | _, _ => s

/-! ## The first load -/

def onLoaded (scene : Scene) : Option Stream :=
  if s.phase = .loading then some { s with phase := .config, scene := scene, flows := [] }
  else none

/-- The configuration brings the home coordinate, unless it fails. -/
def onConfig (scene : Option Scene) : Option Stream :=
  if s.phase = .config then some { s with phase := .recent, scene := scene.getD s.scene } else none

def onFirstRecent (now : ℚ) (reply : Option (List Flow)) : Option Stream :=
  if s.phase = .recent then
    let s := { s with phase := .connected }
    some (match reply with
      | some flows => if s.live then s.pushAll now flows.reverse else s
      | none => s)
  else none

/-! ## What the operations do to the gate -/

variable {s}

@[simp] theorem push_live (now : ℚ) (flow : Flow) : (s.push now flow).live = s.live := by
  rw [push]
  split <;> rfl

@[simp] theorem pushAll_live (now : ℚ) (flows : List Flow) :
    (s.pushAll now flows).live = s.live := by
  induction flows generalizing s with
  | nil => rfl
  | cons f flows ih => exact ih.trans (push_live now f)

@[simp] theorem replay_live (now : ℚ) (flows : List Flow) : (s.replay now flows).live = false := rfl

@[simp] theorem goLive_live : s.goLive.live = true := rfl

theorem live_of_onRecent {now : ℚ} {reply : Option (List Flow)} {t : Stream}
    (h : s.onRecent now reply = some t) : t.live = s.live := by
  rw [onRecent] at h
  split at h
  · cases h
  · obtain rfl := Option.some.inj h
    cases reply with
    | none => rfl
    | some flows => exact pushAll_live now flows.reverse

theorem live_of_onTimer {now : ℚ} {i : ℕ} {t : Stream} (h : s.onTimer now i = some t) :
    t.live = s.live := by
  obtain ⟨timer, -, rfl⟩ := Option.map_eq_some_iff.mp h
  dsimp only
  split
  · exact push_live now timer.flow
  · rfl

@[simp] theorem onMessage_live (now : ℚ) (message : Option Flow) :
    (s.onMessage now message).live = s.live := by
  cases hlive : s.live with
  | false => simp [onMessage, hlive]
  | true =>
      cases message with
      | none => simp [onMessage, hlive]
      | some flow => simp [onMessage, hlive]

theorem live_of_onLoaded {scene : Scene} {t : Stream} (h : s.onLoaded scene = some t) :
    t.live = s.live := by
  obtain ⟨-, h⟩ := Option.ite_none_right_eq_some.mp h
  obtain rfl := Option.some.inj h
  rfl

theorem live_of_onConfig {scene : Option Scene} {t : Stream} (h : s.onConfig scene = some t) :
    t.live = s.live := by
  obtain ⟨-, h⟩ := Option.ite_none_right_eq_some.mp h
  obtain rfl := Option.some.inj h
  rfl

theorem live_of_onFirstRecent {now : ℚ} {reply : Option (List Flow)} {t : Stream}
    (h : s.onFirstRecent now reply = some t) : t.live = s.live := by
  obtain ⟨-, h⟩ := Option.ite_none_right_eq_some.mp h
  obtain rfl := Option.some.inj h
  cases reply with
  | none => rfl
  | some flows =>
      dsimp only
      split
      · exact pushAll_live now flows.reverse
      · rfl

end Stream

end TrafficMap.Web
