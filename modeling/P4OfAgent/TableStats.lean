import P4OfAgent.Lib.Runs
import P4OfAgent.OpenFlow

/-! `table_stats_get` of `callbacks.c`. It reads two counters of a table, and packets are looked up
between the two reads as at any other time. -/

namespace P4OfAgent
open Runs
variable {S : Type}

/-- The counter functions that `openflow_init` registered under the ids of tables, as readings of the
data plane. -/
structure TableCounters (S : Type) where
  packetsHit : BitVec 8 → Option (S → BitVec 64)
  packetsMissed : BitVec 8 → Option (S → BitVec 64)

structure TableStats where
  lookupCount : BitVec 64
  matchedCount : BitVec 64

structure TableStatsResult where
  ret : IndigoError
  stats : TableStats

/-- `table_stats_get`; `atHit` and `atMissed` are the data plane when the hits and the misses are read.
The table id is cut to the 8 bits that `state.c` takes. -/
def tableStatsGet (c : TableCounters S) (tablePriv : BitVec 64) (atHit atMissed : S)
    (stats : TableStats) : TableStatsResult :=
  let tid := tablePriv
  match c.packetsHit (tid.setWidth 8), c.packetsMissed (tid.setWidth 8) with
  | some getHit, some getMissed =>
    let hitCount := getHit atHit
    let missCount := getMissed atMissed
    ⟨.none, { lookupCount := hitCount + missCount, matchedCount := hitCount }⟩
  | _, _ => ⟨.badTableId, stats⟩

structure Lookup where
  tid : BitVec 8
  hit : Bool

structure CountsLookups (c : TableCounters S) (look : S → Lookup → S) : Prop where
  hit : ∀ tid, ∀ get ∈ c.packetsHit tid, ∀ s l,
    get (look s l) = get s + if l.tid = tid ∧ l.hit = true then 1 else 0
  missed : ∀ tid, ∀ get ∈ c.packetsMissed tid, ∀ s l,
    get (look s l) = get s + if l.tid = tid ∧ l.hit = false then 1 else 0

def countOf (tid : BitVec 8) (hit : Bool) (ls : List Lookup) : Nat :=
  ls.countP fun l => l.tid = tid ∧ l.hit = hit

def lookupsOf (tid : BitVec 8) (ls : List Lookup) : Nat := countOf tid true ls + countOf tid false ls

section counting
variable {look : S → Lookup → S}

theorem countOf_append (tid : BitVec 8) (hit : Bool) (ls ls' : List Lookup) :
    countOf tid hit (ls ++ ls') = countOf tid hit ls + countOf tid hit ls' := List.countP_append

theorem counter_run {get : S → BitVec 64} {tid : BitVec 8} {hit : Bool}
    (hstep : ∀ s l, get (look s l) = get s + if l.tid = tid ∧ l.hit = hit then 1 else 0)
    (s : S) (ls : List Lookup) :
    get (run look s ls) = get s + BitVec.ofNat 64 (countOf tid hit ls) := by
  induction ls generalizing s with
  | nil => exact (BitVec.add_zero _).symm
  | cons l ls ih =>
    rw [run_cons, ih, hstep, BitVec.add_assoc]
    refine congrArg (get s + ·) ?_
    have hcount : countOf tid hit (l :: ls) =
        (if l.tid = tid ∧ l.hit = hit then 1 else 0) + countOf tid hit ls := by
      rw [countOf, List.countP_cons, countOf, Nat.add_comm]
      simp only [decide_eq_true_eq]
    rw [hcount, BitVec.ofNat_add]
    split_ifs <;> rfl

end counting

section polls
variable {look : S → Lookup → S} {c : TableCounters S}

theorem tableStatsGet_done {tablePriv : BitVec 64} {atHit atMissed : S} {stats : TableStats}
    (hr : (tableStatsGet c tablePriv atHit atMissed stats).ret = .none) :
    ∃ getHit ∈ c.packetsHit (tablePriv.setWidth 8),
      ∃ getMissed ∈ c.packetsMissed (tablePriv.setWidth 8),
        ∀ atHit atMissed stats, tableStatsGet c tablePriv atHit atMissed stats =
          ⟨.none, ⟨getHit atHit + getMissed atMissed, getHit atHit⟩⟩ := by
  unfold tableStatsGet at hr
  dsimp only at hr
  cases hh : c.packetsHit (tablePriv.setWidth 8) with
  | none =>
    simp only [hh] at hr
    exact IndigoError.noConfusion hr
  | some getHit =>
    cases hm : c.packetsMissed (tablePriv.setWidth 8) with
    | none =>
      simp only [hh, hm] at hr
      exact IndigoError.noConfusion hr
    | some getMissed =>
      refine ⟨getHit, rfl, getMissed, rfl, fun atHit atMissed stats => ?_⟩
      simp only [tableStatsGet, hh, hm]

end polls

/-- What a table reports to have looked up and matched from one poll to a later one, with lookups going
on during both: every lookup is counted once, a hit from the first read of a poll on and a miss from its
second read on. -/
theorem tableStats_between (c : TableCounters S) (look : S → Lookup → S) (hc : CountsLookups c look)
    (tablePriv : BitVec 64) (s : S) (during between during' : List Lookup) (stats stats' : TableStats) :
    let s' := run look s (during ++ between)
    let r := tableStatsGet c tablePriv s (run look s during) stats
    let r' := tableStatsGet c tablePriv s' (run look s' during') stats'
    let tid : BitVec 8 := tablePriv.setWidth 8
    let matched := r'.stats.matchedCount - r.stats.matchedCount
    let lookups := r'.stats.lookupCount - r.stats.lookupCount
    r.ret = .none → r'.ret = .none ∧
      matched = BitVec.ofNat 64 (countOf tid true (during ++ between)) ∧
      lookups = BitVec.ofNat 64
        (countOf tid true (during ++ between) + countOf tid false (between ++ during')) ∧
      (lookupsOf tid (during ++ between ++ during') < 2 ^ 64 →
        matched ≤ lookups ∧ lookupsOf tid between ≤ lookups.toNat ∧
          lookups.toNat ≤ lookupsOf tid (during ++ between ++ during')) := by
  intro s' r r' tid matched lookups hr
  obtain ⟨getHit, hhit, getMissed, hmissed, hget⟩ := tableStatsGet_done hr
  have hhits : getHit s' = getHit s + BitVec.ofNat 64 (countOf tid true (during ++ between)) :=
    counter_run (hc.hit tid getHit hhit) s _
  have hsecond : getMissed (run look s' during') = getMissed (run look s during) +
      BitVec.ofNat 64 (countOf tid false (between ++ during')) := by
    have hrun : run look s' during' = run look (run look s during) (between ++ during') := by
      rw [← run_append, ← run_append, List.append_assoc]
    rw [hrun]
    exact counter_run (hc.missed tid getMissed hmissed) _ _
  have hmatched : matched = BitVec.ofNat 64 (countOf tid true (during ++ between)) := by
    simp only [matched, r, r', hget, hhits]
    rw [BitVec.add_comm, BitVec.add_sub_cancel]
  have hlookups : lookups = BitVec.ofNat 64
      (countOf tid true (during ++ between) + countOf tid false (between ++ during')) := by
    simp only [lookups, r, r', hget, hhits, hsecond, BitVec.ofNat_add]
    bv_omega
  refine ⟨by simp only [r', hget], hmatched, hlookups, fun hsmall => ?_⟩
  simp only [lookupsOf, countOf_append] at hsmall hmatched hlookups ⊢
  rw [hmatched, hlookups, BitVec.le_def, BitVec.toNat_ofNat, BitVec.toNat_ofNat]
  omega

def numbers : TableCounters (BitVec 64 × BitVec 64) :=
  ⟨fun tid => if tid = 3 then some Prod.fst else none, fun tid => if tid = 3 then some Prod.snd else none⟩

def lookNumbers (s : BitVec 64 × BitVec 64) (l : Lookup) : BitVec 64 × BitVec 64 :=
  if l.tid = 3 then if l.hit then (s.1 + 1, s.2) else (s.1, s.2 + 1) else s

theorem countsLookups_numbers : CountsLookups numbers lookNumbers := by
  constructor
  · intro tid get hget s l
    simp only [numbers, Option.mem_def, Option.ite_none_right_eq_some] at hget
    obtain ⟨rfl, hget⟩ := hget
    obtain rfl := Option.some.inj hget
    rw [lookNumbers]
    split_ifs <;> simp_all
  · intro tid get hget s l
    simp only [numbers, Option.mem_def, Option.ite_none_right_eq_some] at hget
    obtain ⟨rfl, hget⟩ := hget
    obtain rfl := Option.some.inj hget
    rw [lookNumbers]
    split_ifs <;> simp_all

theorem tableStats_between_numbers :
    let s' := run lookNumbers (0, 0) [⟨3, true⟩, ⟨3, false⟩, ⟨4, true⟩, ⟨3, true⟩]
    (tableStatsGet numbers 0x103 s' s' ⟨0, 0⟩).stats.lookupCount -
      (tableStatsGet numbers 0x103 (0, 0) (run lookNumbers (0, 0) [⟨3, true⟩, ⟨3, false⟩])
        ⟨0, 0⟩).stats.lookupCount = 2 :=
  (tableStats_between numbers lookNumbers countsLookups_numbers 0x103 (0, 0) [⟨3, true⟩, ⟨3, false⟩]
    [⟨4, true⟩, ⟨3, true⟩] [] ⟨0, 0⟩ ⟨0, 0⟩ rfl).2.2.1

end P4OfAgent
