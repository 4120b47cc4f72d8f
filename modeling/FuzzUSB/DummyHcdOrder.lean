import FuzzUSB.DummyHcdTransfer

/-!
# The order of gadget requests

The queue of one endpoint over a sequence of URBs. Requests are queued and unlinked between the
calls of `transfer` as well as in the middle of them.
-/

namespace FuzzUSB.DummyHcd
open Transition

/-! ## The endpoint -/

def State.queue (s : State) : List ℕ := s.before ++ s.rest

/-- Requests are unlinked and others are queued while no transfer goes on. -/
def State.enqueue (s : State) (e : Interlude) : State :=
  { s with
    arrived := s.arrived + e.arrivals
    before := s.queue.filter e.keep ++ List.range' s.arrived e.arrivals
    rest := [] }

/-- `transfer` is called with `*status` in progress. -/
def State.call (s : State) (urb : Urb) (limit : BitVec 32) : State :=
  { s with
    urb := urb
    before := []
    rest := s.queue
    limit := limit.toInt
    sent := 0
    status := -eInProgress
    moved := [] }

inductive EndpointEvent
  | queue (e : Interlude)
  | call (urb : Urb) (limit : BitVec 32)
  | round (e : Interlude)

/-- An endpoint without streams. The rounds of one call follow each other up to its end. -/
def endpointStep (streamEnEp : BitVec 32) (ep : Endpoint) (s : State) :
    EndpointEvent → Option State
  | .queue e => if s.rest = [] then some (s.enqueue e) else none
  | .call urb limit =>
    if s.rest = [] ∧ dummyEpStreamEn streamEnEp urb = false ∧
        urb.actualLength ≤ urb.transferBufferLength ∧ 0 ≤ limit.toInt then
      some (s.call urb limit)
    else none
  | .round e => step streamEnEp ep s e

def noUrb : Urb := ⟨0, 0, 0, 0, fun _ => 0, 0, 0⟩

/-- `dummy_queue` sets the status and the progress of a request. -/
def Request.queued (req : Request) : Request := { req with status := -eInProgress, actual := 0 }

/-- An endpoint with an empty queue, for the requests to come. -/
def State.idle (reqs : ℕ → Request) : State :=
  .start noUrb (fun i => (reqs i).queued) 0 0 (-eInProgress)

/-! ## The property -/

/-- In a round of `transfer`, a request behind an incomplete one is left as it is: no bytes of
it are moved, and it is not given a status. If it is the request of the round, the URB is left
as it is too. -/
def InTurn (streamEnEp : BitVec 32) (ep : Endpoint) (s : State) (ev : EndpointEvent) : Prop :=
  ∀ e t, ev = .round e → step streamEnEp ep s e = some t →
    ∀ j i, [j, i].Sublist s.queue → (s.reqs j).status = -eInProgress →
      t.reqs i = s.reqs i ∧ (s.rest.head? = some i → t.urb = s.urb ∧ t.status = s.status)

/-- The limit is a number of whole packets, and satisfies neither the URB nor the request. -/
structure Spends (ep : Endpoint) (s : State) (i : ℕ) : Prop where
  pos : 0 < s.limit
  packets : (ep.maxpacket : ℤ) ∣ s.limit
  host : s.limit < s.urb.hostLen
  dev : s.limit < (s.reqs i).devLen

/-- The limit is spent on a request, and for the request behind it nothing is to be moved. -/
def Overtakes (ep : Endpoint) (s : State) : Prop :=
  ∃ i k rest, s.rest = i :: k :: rest ∧ Spends ep s i ∧ (s.reqs k).devLen = 0

/-! ## Portions -/

theorem portion_zero (maxpacket : ℕ) (limit : ℤ) :
    portion maxpacket limit 0 = some ⟨0, true, false⟩ := rfl

theorem portion_limit_zero {maxpacket len : ℕ} (hpos : 0 < maxpacket) (hlen : 0 < len) :
    portion maxpacket 0 len = none := by
  have hband : (0 : ℤ) < maxpacket ∧ asUnsigned 0 < len := ⟨by omega, hlen⟩
  rw [portion, if_neg hlen.ne', if_pos hband]

/-- Whole packets, and without a rescan all that the limit lets through. -/
theorem portion_long {maxpacket len : ℕ} {limit : ℤ} {p : Portion} (h0 : 0 ≤ limit)
    (hlimit : limit < 2147483648) (h : portion maxpacket limit len = some p)
    (hlong : p.isShort = false) :
    maxpacket ∣ p.len ∧ (p.rescan = false → (p.len : ℤ) = min (len : ℤ) limit) := by
  have hunsigned := asUnsigned_eq h0 hlimit
  simp only [portion] at h
  split_ifs at h
  · obtain rfl := Option.some.inj h
    cases hlong
  · obtain rfl := Option.some.inj h
    refine ⟨Nat.dvd_sub_mod _, fun hrescan => ?_⟩
    have hmod : min len (asUnsigned limit) % maxpacket = 0 := by simpa using hrescan
    simp only [hmod]
    omega
  · obtain rfl := Option.some.inj h
    cases hlong

/-- The limit alone decides whether the packets that it lets through are enough. -/
theorem portion_of_dvd {maxpacket len : ℕ} {limit : ℤ} (h0 : 0 < limit)
    (hlimit : limit < 2147483648) (hdvd : (maxpacket : ℤ) ∣ limit) (hlen : limit < len) :
    portion maxpacket limit len = some ⟨limit.toNat, false, false⟩ := by
  have hunsigned := asUnsigned_eq h0.le hlimit
  have hle : (maxpacket : ℤ) ≤ limit := Int.le_of_dvd h0 hdvd
  have hmin : min len (asUnsigned limit) = limit.toNat := by omega
  have hmod : limit.toNat % maxpacket = 0 := by
    refine Nat.mod_eq_zero_of_dvd (Int.natCast_dvd_natCast.mp ?_)
    rwa [Int.toNat_of_nonneg h0.le]
  simp only [portion, hmin, hmod]
  rw [if_neg (by omega), if_neg (by omega), if_neg (by omega), if_pos (by omega)]
  simp

/-! ## One round -/

section

variable {s : State} {i : ℕ} {rest : List ℕ}

theorem State.moveSome_reqs_of_ne (s : State) {i k : ℕ} (hk : k ≠ i) (len : ℕ) :
    (s.moveSome i len).reqs k = s.reqs k := by
  simp only [State.moveSome, State.move]
  split_ifs <;> simp [hk]

theorem State.settle_reqs_of_ne (s : State) {i k : ℕ} (hk : k ≠ i) (hostLen devLen : ℕ)
    (isShort : Bool) : (s.settle i hostLen devLen isShort).reqs k = s.reqs k := by
  cases isShort <;> simp [State.settle, hk]

theorem State.conclude_kept (s : State) (i : ℕ) (rest : List ℕ) (rescan : Bool) (e : Interlude) :
    (s.conclude i rest rescan e).reqs = s.reqs ∧
      (s.conclude i rest rescan e).status = s.status := by
  simp only [State.conclude]
  split_ifs <;> exact ⟨rfl, rfl⟩

/-- A round is about one request. -/
theorem State.visit_reqs_of_ne (s : State) {i k : ℕ} (hk : k ≠ i) (streamEnEp : BitVec 32)
    (ep : Endpoint) (rest : List ℕ) (e : Interlude) :
    (s.visit streamEnEp ep i rest e).reqs k = s.reqs k := by
  simp only [State.visit]
  split
  · rfl
  · split
    · rfl
    · rw [(State.conclude_kept _ _ _ _ _).1, State.settle_reqs_of_ne _ hk,
        State.moveSome_reqs_of_ne _ hk]

/-- What a round does to the queue: a request that is done leaves it, and then others may leave
and arrive. -/
theorem State.conclude_queue (s : State) (i : ℕ) (rest : List ℕ) (rescan : Bool)
    (e : Interlude) :
    ((s.reqs i).status = -eInProgress ∧ (s.conclude i rest rescan e).queue = s.before ++ i :: rest ∧
      (s.conclude i rest rescan e).arrived = s.arrived) ∨
    (s.conclude i rest rescan e).queue =
        (s.before ++ rest).filter e.keep ++ List.range' s.arrived e.arrivals ∧
      (s.conclude i rest rescan e).arrived = s.arrived + e.arrivals := by
  simp only [State.conclude, State.queue]
  split_ifs with hreq
  · exact .inr ⟨by simp, rfl⟩
  · exact .inr ⟨by simp, rfl⟩
  · exact .inl ⟨not_not.mp hreq, by simp, rfl⟩
  · exact .inl ⟨not_not.mp hreq, by simp, rfl⟩
  · exact .inl ⟨not_not.mp hreq, by simp, rfl⟩

/-- The loop goes on behind the request of the round only if neither side is done. -/
theorem State.conclude_walk (s : State) (i : ℕ) (rest : List ℕ) (rescan : Bool) (e : Interlude) :
    if (s.reqs i).status = -eInProgress ∧ s.status = -eInProgress ∧ rescan = false then
      s.conclude i rest rescan e = { s with before := s.before ++ [i], rest := rest }
    else
      ((s.conclude i rest rescan e).before = [] ∨ (s.conclude i rest rescan e).rest = []) ∧
        (s.status ≠ -eInProgress → (s.conclude i rest rescan e).rest = []) := by
  simp only [State.conclude]
  grind

/-- After whole packets, the loop is to go on behind the request exactly if neither side has
been satisfied. -/
theorem State.settle_long (s : State) (i hostLen devLen len : ℕ)
    (hurb : s.urb.actualLength ≤ s.urb.transferBufferLength)
    (hreq : (s.reqs i).actual ≤ (s.reqs i).length) (hlen : len < 2147483648) (hpos : 0 < len)
    (hhost : len ≤ s.urb.hostLen) (hdev : len ≤ (s.reqs i).devLen)
    (hpending : (s.reqs i).status = -eInProgress) (hrunning : s.status = -eInProgress) :
    ((((s.moveSome i len).settle i hostLen devLen false).reqs i).status = -eInProgress ∧
        ((s.moveSome i len).settle i hostLen devLen false).status = -eInProgress ∧
        (s.moveSome i len).wantsZlp i = false) ↔
      len < s.urb.hostLen ∧ len < (s.reqs i).devLen := by
  have hdone : (0 : ℤ) ≠ -eInProgress := by decide
  rw [Urb.hostLen] at hhost ⊢
  rw [Request.devLen] at hdev ⊢
  have hurbDone : s.urb.transferBufferLength = s.urb.actualLength + len ↔
      ¬len < s.urb.transferBufferLength - s.urb.actualLength := by omega
  have hreqDone : (s.reqs i).length = (s.reqs i).actual + len ↔
      ¬len < (s.reqs i).length - (s.reqs i).actual := by omega
  rw [State.moveSome, if_neg hpos.ne', s.move_eq i hlen]
  simp only [State.settle, State.wantsZlp, Bool.false_eq_true, if_false, Function.update_self,
    Urb.dirIn, hpending, hrunning, hurbDone, hreqDone]
  by_cases hdir : s.urb.transferFlags &&& urbDirIn = urbDirIn <;>
    by_cases hzero : (s.reqs i).zero <;>
    by_cases hzlp : s.urb.transferFlags &&& urbZeroPacket = 0 <;>
    simp [hdir, hzero, hzlp, hdone] <;> grind

end

/-! ## The invariant -/

/-- The queue is in the order of arrival and holds incomplete requests. The loop is behind some
of them only when the frame has no bandwidth left. -/
structure Lined (streamEnEp : BitVec 32) (s : State) : Prop where
  transfer : ∃ urb reqs limit, limit < 2147483648 ∧ Inv urb reqs limit s
  sorted : s.queue.Pairwise (· < ·)
  pending : ∀ i, i ∈ s.queue ∨ s.arrived ≤ i → (s.reqs i).status = -eInProgress
  running : s.rest ≠ [] →
    dummyEpStreamEn streamEnEp s.urb = false ∧ s.status = -eInProgress
  behind : s.rest ≠ [] → s.before ≠ [] → s.limit = 0 ∧ 0 < s.urb.hostLen

/-- The loop is behind an incomplete request, before one with nothing to move. -/
def Stalled (s : State) : Prop :=
  s.before ≠ [] ∧ ∃ k rest, s.rest = k :: rest ∧ (s.reqs k).devLen = 0

section

variable {streamEnEp : BitVec 32} {ep : Endpoint} {s t : State} {i : ℕ} {rest : List ℕ}
  {e : Interlude}

theorem Lined.bounds (h : Lined streamEnEp s) :
    0 ≤ s.limit ∧ s.limit < 2147483648 ∧ s.urb.actualLength ≤ s.urb.transferBufferLength ∧
      ∀ i, (s.reqs i).actual ≤ (s.reqs i).length := by
  obtain ⟨urb, reqs, limit, hmax, hinv⟩ := h.transfer
  have hleft := hinv.left
  exact ⟨hinv.nonneg, by omega, hinv.urb_le, hinv.req_le⟩

theorem Lined.queued (h : Lined streamEnEp s) : s.Queued := by
  obtain ⟨urb, reqs, limit, -, hinv⟩ := h.transfer
  exact hinv.queued

/-- A queue that lost some requests and got new ones is in the order of arrival. -/
theorem sorted_refill {queue : List ℕ} {arrived : ℕ} (hsorted : queue.Pairwise (· < ·))
    (hlt : ∀ i ∈ queue, i < arrived) (keep : ℕ → Bool) (arrivals : ℕ) :
    (queue.filter keep ++ List.range' arrived arrivals).Pairwise (· < ·) := by
  refine List.pairwise_append.mpr ⟨hsorted.filter _, List.pairwise_lt_range', ?_⟩
  intro i hi j hj
  have hi' := hlt i (List.mem_of_mem_filter hi)
  have hj' := (List.mem_range'_1.mp hj).1
  omega

theorem mem_refill {queue : List ℕ} {keep : ℕ → Bool} {arrived arrivals i : ℕ}
    (h : i ∈ queue.filter keep ++ List.range' arrived arrivals ∨ arrived + arrivals ≤ i) :
    i ∈ queue ∨ arrived ≤ i := by
  rcases h with h | h
  · rcases List.mem_append.mp h with hold | hnew
    · exact .inl (List.mem_of_mem_filter hold)
    · exact .inr (List.mem_range'_1.mp hnew).1
  · omega

/-- Where the limit is spent, the loop goes on behind the request. -/
theorem Lined.visit_spends (h : Lined streamEnEp s) (hs : s.rest = i :: rest)
    (hspends : Spends ep s i) (e : Interlude) :
    (s.visit streamEnEp ep i rest e).before = s.before ++ [i] ∧
      (s.visit streamEnEp ep i rest e).rest = rest ∧
      (s.visit streamEnEp ep i rest e).limit = 0 ∧
      0 < (s.visit streamEnEp ep i rest e).urb.hostLen := by
  obtain ⟨h0, hdvd, hhost, hdev⟩ := hspends
  obtain ⟨-, hmax, hurb, hreq⟩ := h.bounds
  obtain ⟨hstream, hrunning⟩ := h.running (by simp [hs])
  have hpending := h.pending i (.inl (by simp [State.queue, hs]))
  obtain ⟨len, hlen⟩ := Int.eq_ofNat_of_zero_le h0.le
  have hportion : portion ep.maxpacket s.limit (min s.urb.hostLen (s.reqs i).devLen) =
      some ⟨len, false, false⟩ := by
    rw [portion_of_dvd h0 hmax hdvd (by omega), hlen]
    rfl
  have hdone := (s.settle_long i s.urb.hostLen (s.reqs i).devLen len hurb (hreq i)
    (by omega) (by omega) (by omega) (by omega) hpending hrunning).mpr ⟨by omega, by omega⟩
  have hwalk := State.conclude_walk ((s.moveSome i len).settle i s.urb.hostLen
    (s.reqs i).devLen false) i rest (false || (!false && (s.moveSome i len).wantsZlp i)) e
  rw [if_pos ⟨hdone.1, hdone.2.1, by simp [hdone.2.2]⟩] at hwalk
  obtain ⟨hbefore, -, -⟩ := State.settle_queue (s.moveSome i len) i s.urb.hostLen
    (s.reqs i).devLen false
  have hsame := State.settle_same (s.moveSome i len) i s.urb.hostLen (s.reqs i).devLen false
  have hleft : (s.moveSome i len).urb.hostLen = s.urb.hostLen - len :=
    s.hostLen_moveSome i (by omega)
  simp only [State.visit, hstream, hportion, Bool.false_eq_true, false_and, if_false, hwalk,
    hbefore, hsame.limit, hsame.urb]
  refine ⟨by rw [(s.moveSome_queue i len).1], trivial, ?_, by omega⟩
  rw [State.moveSome, if_neg (by omega), s.move_eq i (by omega)]
  simp only
  omega

/-- Elsewhere the loop starts again from the head of the queue, or is left. -/
theorem Lined.visit_not_spends (h : Lined streamEnEp s) (hs : s.rest = i :: rest)
    (hspends : ¬Spends ep s i) (e : Interlude) :
    (s.visit streamEnEp ep i rest e).before = [] ∨ (s.visit streamEnEp ep i rest e).rest = [] := by
  obtain ⟨h0, hmax, hurb, hreq⟩ := h.bounds
  obtain ⟨hstream, hrunning⟩ := h.running (by simp [hs])
  have hpending := h.pending i (.inl (by simp [State.queue, hs]))
  simp only [State.visit, hstream, Bool.false_eq_true, false_and, if_false]
  split
  · exact .inr rfl
  · next p hp =>
    obtain ⟨hlen, hleft, hmoves⟩ := portion_spec ep.pos h0 hmax hp
    cases hshort : p.isShort with
    | true => exact .inr (rest_conclude_of_short _ i rest _ _ _ e)
    | false =>
      obtain ⟨hdvd, hall⟩ := portion_long h0 hmax hp hshort
      have hwalk := State.conclude_walk ((s.moveSome i p.len).settle i s.urb.hostLen
        (s.reqs i).devLen false) i rest (p.rescan || (!false && (s.moveSome i p.len).wantsZlp i)) e
      split_ifs at hwalk with hgoes
      · exfalso
        obtain ⟨hreqStatus, hstatus, hrescan⟩ := hgoes
        simp only [Bool.not_false, Bool.true_and, Bool.or_eq_false_iff] at hrescan
        obtain ⟨hhost, hdev⟩ := (s.settle_long i s.urb.hostLen (s.reqs i).devLen p.len hurb
          (hreq i) (by omega) (hmoves hshort) (hlen.trans (min_le_left _ _))
          (hlen.trans (min_le_right _ _)) hpending hrunning).mp
          ⟨hreqStatus, hstatus, hrescan.2⟩
        have hspent : (p.len : ℤ) = s.limit := by
          have := hall hrescan.1
          omega
        have hpos := hmoves hshort
        exact hspends ⟨by omega, hspent ▸ Int.natCast_dvd_natCast.mpr hdvd, by omega, by omega⟩
      · exact hwalk.1

/-- A round keeps what is left of the queue in order, and incomplete. -/
theorem Lined.visit_queue (h : Lined streamEnEp s) (hs : s.rest = i :: rest) (ep : Endpoint)
    (e : Interlude) :
    (s.visit streamEnEp ep i rest e).queue.Pairwise (· < ·) ∧
      ∀ k, k ∈ (s.visit streamEnEp ep i rest e).queue ∨
          (s.visit streamEnEp ep i rest e).arrived ≤ k →
        ((s.visit streamEnEp ep i rest e).reqs k).status = -eInProgress := by
  have hsorted := h.sorted
  have hpending := h.pending
  have hlt := h.queued
  rw [State.Queued] at hlt
  rw [State.queue, hs] at hsorted hpending
  rw [hs] at hlt
  simp only [State.visit]
  split
  · exact ⟨by simpa [State.queue] using hsorted, by simpa [State.queue] using hpending⟩
  · split
    · exact ⟨by simpa [State.queue] using hsorted, by simpa [State.queue] using hpending⟩
    · next p hp =>
      have hother (k : ℕ) (hk : k ≠ i) : (((s.moveSome i p.len).settle i s.urb.hostLen
          (s.reqs i).devLen p.isShort).conclude i rest
          (p.rescan || (!p.isShort && (s.moveSome i p.len).wantsZlp i)) e).reqs k = s.reqs k := by
        rw [(State.conclude_kept _ _ _ _ _).1, State.settle_reqs_of_ne _ hk,
          State.moveSome_reqs_of_ne _ hk]
      obtain ⟨hbefore, -, harrived⟩ := State.settle_queue (s.moveSome i p.len) i s.urb.hostLen
        (s.reqs i).devLen p.isShort
      obtain ⟨hbefore', -, harrived'⟩ := s.moveSome_queue i p.len
      rcases State.conclude_queue ((s.moveSome i p.len).settle i s.urb.hostLen
          (s.reqs i).devLen p.isShort) i rest
          (p.rescan || (!p.isShort && (s.moveSome i p.len).wantsZlp i)) e with
        ⟨hstatus, hqueue, hnow⟩ | ⟨hqueue, hnow⟩
      · rw [hqueue, hnow, hbefore, hbefore', harrived, harrived']
        refine ⟨hsorted, fun k hk => ?_⟩
        by_cases hki : k = i
        · rw [(State.conclude_kept _ _ _ _ _).1, hki]
          exact hstatus
        · rw [hother k hki]
          exact hpending k hk
      · rw [hqueue, hnow, hbefore, hbefore', harrived, harrived']
        have hsub : (s.before ++ rest).Sublist (s.before ++ i :: rest) :=
          (List.sublist_cons_self i rest).append_left s.before
        refine ⟨sorted_refill (hsorted.sublist hsub) (fun k hk => hlt k (hsub.mem hk)) _ _, ?_⟩
        intro k hk
        have hk' := mem_refill hk
        have hki : k ≠ i := by
          rintro rfl
          rcases hk' with hk' | hk'
          · have hnodup : (s.before ++ k :: rest).Nodup := hsorted.imp fun hlt => hlt.ne
            rw [List.nodup_middle] at hnodup
            exact (List.nodup_cons.mp hnodup).1 hk'
          · have := hlt k (by simp)
            omega
        rw [hother k hki]
        exact hpending k (hk'.imp_left hsub.mem)

theorem State.dummyEpStreamEn_moveSome (s : State) (i len : ℕ) :
    dummyEpStreamEn streamEnEp (s.moveSome i len).urb = dummyEpStreamEn streamEnEp s.urb := by
  simp only [State.moveSome, State.move, dummyPerformTransfer]
  split_ifs <;> rfl

/-- Before another round, the call is as it was: no streams, and the URB in progress. -/
theorem Lined.visit_running (h : Lined streamEnEp s) (hs : s.rest = i :: rest) (ep : Endpoint)
    (e : Interlude) (hrest : (s.visit streamEnEp ep i rest e).rest ≠ []) :
    dummyEpStreamEn streamEnEp (s.visit streamEnEp ep i rest e).urb = false ∧
      (s.visit streamEnEp ep i rest e).status = -eInProgress := by
  obtain ⟨hstream, hrunning⟩ := h.running (by simp [hs])
  revert hrest
  simp only [State.visit, hstream, Bool.false_eq_true, false_and, if_false]
  split
  · exact fun hrest => absurd rfl hrest
  · next p hp =>
    intro hrest
    have hsame := (State.settle_same (s.moveSome i p.len) i s.urb.hostLen (s.reqs i).devLen
      p.isShort).trans (State.conclude_same _ i rest
        (p.rescan || (!p.isShort && (s.moveSome i p.len).wantsZlp i)) e)
    rw [hsame.urb, State.dummyEpStreamEn_moveSome]
    refine ⟨hstream, ?_⟩
    rw [(State.conclude_kept _ _ _ _ _).2]
    have hwalk := State.conclude_walk ((s.moveSome i p.len).settle i s.urb.hostLen
      (s.reqs i).devLen p.isShort) i rest
      (p.rescan || (!p.isShort && (s.moveSome i p.len).wantsZlp i)) e
    split_ifs at hwalk with hgoes
    · exact hgoes.2.1
    · by_contra hstatus
      exact hrest (hwalk.2 hstatus)

theorem Lined.idle (reqs : ℕ → Request) : Lined streamEnEp (.idle reqs) where
  transfer := ⟨noUrb, _, 0, by decide, Inv.start (Nat.le_refl _) (fun _ => Nat.zero_le _)
    (Int.le_refl 0) 0 _⟩
  sorted := .nil
  pending _ _ := rfl
  running hrest := absurd rfl hrest
  behind hrest := absurd rfl hrest

theorem Lined.enqueue (h : Lined streamEnEp s) (e : Interlude) :
    Lined streamEnEp (s.enqueue e) := by
  have hqueue : (s.enqueue e).queue =
      s.queue.filter e.keep ++ List.range' s.arrived e.arrivals := by
    simp [State.queue, State.enqueue]
  constructor
  case transfer =>
    obtain ⟨urb, reqs, limit, hmax, hinv⟩ := h.transfer
    refine ⟨urb, reqs, limit, hmax, hinv.of_same
      ⟨rfl, rfl, rfl, rfl, fun _ => rfl, fun _ => rfl, fun _ => rfl⟩ ?_ (Nat.le_add_right _ _)⟩
    intro i hi
    change i ∈ (s.enqueue e).queue at hi
    rw [hqueue] at hi
    exact lt_refill h.queued e.keep e.arrivals i hi
  case sorted =>
    rw [hqueue]
    exact sorted_refill h.sorted h.queued _ _
  case pending =>
    intro i hi
    rw [hqueue] at hi
    exact h.pending i (mem_refill hi)
  case running => exact fun hrest => absurd rfl hrest
  case behind => exact fun hrest => absurd rfl hrest

theorem Lined.call (h : Lined streamEnEp s) {urb : Urb} {limit : BitVec 32}
    (hstream : dummyEpStreamEn streamEnEp urb = false)
    (hurb : urb.actualLength ≤ urb.transferBufferLength) (hlimit : 0 ≤ limit.toInt) :
    Lined streamEnEp (s.call urb limit) := by
  have hmax : limit.toInt < 2147483648 := by
    have hlt := limit.toInt_lt
    omega
  obtain ⟨-, -, -, hreq⟩ := h.bounds
  constructor
  case transfer =>
    refine ⟨urb, s.reqs, limit.toInt, hmax, (Inv.start hurb hreq hlimit s.arrived
      (-eInProgress)).of_same
      ⟨rfl, rfl, rfl, rfl, fun _ => rfl, fun _ => rfl, fun _ => rfl⟩ h.queued (Nat.le_refl _)⟩
  case sorted => exact h.sorted
  case pending => exact h.pending
  case running => exact fun _ => ⟨hstream, rfl⟩
  case behind => exact fun _ hbefore => absurd rfl hbefore

theorem Lined.visit (h : Lined streamEnEp s) (hs : s.rest = i :: rest) (ep : Endpoint)
    (e : Interlude) : Lined streamEnEp (s.visit streamEnEp ep i rest e) := by
  obtain ⟨hsorted, hpending⟩ := h.visit_queue hs ep e
  constructor
  case transfer =>
    obtain ⟨urb, reqs, limit, hmax, hinv⟩ := h.transfer
    exact ⟨urb, reqs, limit, hmax, hinv.visit hmax hs streamEnEp ep e⟩
  case sorted => exact hsorted
  case pending => exact hpending
  case running => exact h.visit_running hs ep e
  case behind =>
    intro hrest hbefore
    by_cases hspends : Spends ep s i
    · exact (h.visit_spends hs hspends e).2.2
    · exact absurd (h.visit_not_spends hs hspends e) (not_or.mpr ⟨hbefore, hrest⟩)

/-- The step lemma. -/
theorem Lined.step {ev : EndpointEvent} (h : Lined streamEnEp s)
    (ht : endpointStep streamEnEp ep s ev = some t) : Lined streamEnEp t := by
  cases ev with
  | queue e =>
    obtain ⟨-, rfl⟩ := Option.ite_some_none_eq_some.mp ht
    exact h.enqueue e
  | call urb limit =>
    obtain ⟨⟨-, hstream, hurb, hlimit⟩, rfl⟩ := Option.ite_some_none_eq_some.mp ht
    exact h.call hstream hurb hlimit
  | round e =>
    simp only [endpointStep, DummyHcd.step] at ht
    split at ht
    · cases ht
    · next hs =>
      obtain rfl := Option.some.inj ht
      exact h.visit hs ep e

/-! ## Overtaking -/

/-- Behind an incomplete request, a round with something to move moves nothing. -/
theorem Lined.visit_behind (h : Lined streamEnEp s) (hs : s.rest = i :: rest)
    (hbefore : s.before ≠ []) (hdev : 0 < (s.reqs i).devLen) (ep : Endpoint) (e : Interlude) :
    s.visit streamEnEp ep i rest e = { s with before := s.before ++ i :: rest, rest := [] } := by
  have hrest : s.rest ≠ [] := by simp [hs]
  obtain ⟨hlimit, hhost⟩ := h.behind hrest hbefore
  have hportion := portion_limit_zero ep.pos (lt_min hhost hdev)
  simp only [State.visit, (h.running hrest).1, hlimit, hportion, Bool.false_eq_true, false_and,
    if_false]

/-- With nothing to move, a round ends the URB. -/
theorem Lined.visit_empty (h : Lined streamEnEp s) (hs : s.rest = i :: rest)
    (hdev : (s.reqs i).devLen = 0) (ep : Endpoint) (e : Interlude) :
    (s.visit streamEnEp ep i rest e).status ≠ s.status := by
  obtain ⟨hstream, hrunning⟩ := h.running (by simp [hs])
  rw [hrunning]
  simp only [State.visit, hstream, hdev, Nat.min_zero, portion_zero, Bool.false_eq_true, false_and,
    if_false]
  rw [(State.conclude_kept _ _ _ _ _).2]
  exact shortStatus_ne _ _ _

/-- A request behind that of the round is a later one. -/
theorem Lined.mem_before (h : Lined streamEnEp s) (hs : s.rest = i :: rest) {j : ℕ}
    (hji : [j, i].Sublist s.queue) : j ∈ s.before := by
  have hsorted := h.sorted
  have hlt : j < i := by simpa using hsorted.sublist hji
  have hmem : j ∈ s.queue := hji.mem (by simp)
  rw [State.queue, hs] at hsorted hmem
  rcases List.mem_append.mp hmem with hj | hj
  · exact hj
  · have hle : i ≤ j := by
      rcases List.mem_cons.mp hj with rfl | hj
      · exact le_rfl
      · exact ((List.pairwise_cons.mp (List.pairwise_append.mp hsorted).2.1).1 j hj).le
    omega

/-- A round is out of turn exactly when the loop is stalled. -/
theorem Lined.inTurn_iff (h : Lined streamEnEp s) {ev : EndpointEvent}
    (ht : endpointStep streamEnEp ep s ev = some t) :
    InTurn streamEnEp ep s ev ↔ ¬Stalled s := by
  cases ev with
  | queue e =>
    obtain ⟨hs, -⟩ := Option.ite_some_none_eq_some.mp ht
    exact iff_of_true (by rintro _ _ ⟨⟩) (by simp [Stalled, hs])
  | call urb limit =>
    obtain ⟨⟨hs, -⟩, -⟩ := Option.ite_some_none_eq_some.mp ht
    exact iff_of_true (by rintro _ _ ⟨⟩) (by simp [Stalled, hs])
  | round e =>
    simp only [endpointStep] at ht
    constructor
    · rintro hturn ⟨hbefore, k, rest, hs, hdev⟩
      obtain ⟨j, before, hbefore⟩ := List.exists_cons_of_ne_nil hbefore
      have hj : j ∈ s.queue := by simp [State.queue, hbefore]
      have hjk : [j, k].Sublist s.queue := by
        rw [State.queue, hbefore, hs]
        simp
      have hround := hturn e t rfl ht j k hjk (h.pending j (.inl hj))
      obtain rfl : s.visit streamEnEp ep k rest e = t := by
        simpa [DummyHcd.step, hs] using ht
      exact h.visit_empty hs hdev ep e (hround.2 (by simp [hs])).2
    · rintro hstalled _ t' ⟨⟩ ht' j i hji hpending
      obtain rfl := Option.some.inj (ht.symm.trans ht')
      simp only [DummyHcd.step] at ht
      split at ht
      · cases ht
      · next k rest hs =>
        obtain rfl := Option.some.inj ht
        by_cases hik : i = k
        · subst hik
          have hbefore := List.ne_nil_of_mem (h.mem_before hs hji)
          have hdev : 0 < (s.reqs i).devLen := by
            by_contra hzero
            exact hstalled ⟨hbefore, i, rest, hs, by omega⟩
          rw [h.visit_behind hs hbefore hdev ep e]
          exact ⟨rfl, fun _ => ⟨rfl, rfl⟩⟩
        · refine ⟨s.visit_reqs_of_ne hik streamEnEp ep rest e, fun hhead => ?_⟩
          rw [hs] at hhead
          exact absurd (Option.some.inj hhead).symm hik

theorem Lined.ne_of_behind {k : ℕ} (h : Lined streamEnEp s) (hs : s.rest = i :: k :: rest) :
    k ≠ i := by
  have hsorted := (List.pairwise_append.mp h.sorted).2.1
  rw [hs] at hsorted
  exact ((List.pairwise_cons.mp hsorted).1 k (by simp)).ne'

/-- The loop stalls exactly by overtaking. -/
theorem Lined.stalled_iff (h : Lined streamEnEp s) {ev : EndpointEvent}
    (ht : endpointStep streamEnEp ep s ev = some t) :
    ¬Stalled t ↔ ¬Overtakes ep s := by
  cases ev with
  | queue e =>
    obtain ⟨hs, rfl⟩ := Option.ite_some_none_eq_some.mp ht
    exact iff_of_true (by simp [Stalled, State.enqueue]) (by simp [Overtakes, hs])
  | call urb limit =>
    obtain ⟨⟨hs, -⟩, rfl⟩ := Option.ite_some_none_eq_some.mp ht
    exact iff_of_true (by simp [Stalled, State.call]) (by simp [Overtakes, hs])
  | round e =>
    simp only [endpointStep, DummyHcd.step] at ht
    split at ht
    · cases ht
    · next i rest hs =>
      obtain rfl := Option.some.inj ht
      rw [not_iff_not]
      constructor
      · rintro ⟨hbefore, k, rest', hrest, hdev⟩
        have hspends : Spends ep s i := by
          by_contra hspends
          rcases h.visit_not_spends hs hspends e with hnil | hnil
          · exact hbefore hnil
          · rw [hnil] at hrest
            cases hrest
        rw [(h.visit_spends hs hspends e).2.1] at hrest
        subst hrest
        rw [s.visit_reqs_of_ne (h.ne_of_behind hs) streamEnEp ep] at hdev
        exact ⟨i, k, rest', hs, hspends, hdev⟩
      · rintro ⟨i', k, rest', hs', hspends, hdev⟩
        obtain ⟨rfl, rfl⟩ := List.cons.inj (hs.symm.trans hs')
        obtain ⟨hbefore, hrest, -⟩ := h.visit_spends hs hspends e
        refine ⟨by simp [hbefore], k, rest', hrest, ?_⟩
        rw [s.visit_reqs_of_ne (h.ne_of_behind hs) streamEnEp ep]
        exact hdev

/-! ## Runs -/

theorem not_stalled_idle (reqs : ℕ → Request) : ¬Stalled (.idle reqs) :=
  fun h => h.1 rfl

/-- For every sequence of transfers at an endpoint without streams, for every queue, whatever is
queued and unlinked between the transfers and in the completion callbacks: if no round spends
the limit of its transfer on a request while the next one has nothing to move, then no request
is touched, and no URB ended on its account, behind an incomplete one. Of runs that do not stop
in the middle of a transfer, the condition is exact. -/
theorem transfer_inTurn_iff (streamEnEp : BitVec 32) (ep : Endpoint) (reqs : ℕ → Request)
    (es : List EndpointEvent) :
    (AlwaysStep (endpointStep streamEnEp ep) (fun s _ => ¬Overtakes ep s) (.idle reqs) es →
      AlwaysStep (endpointStep streamEnEp ep) (InTurn streamEnEp ep) (.idle reqs) es) ∧
    ∀ t, runs (endpointStep streamEnEp ep) (.idle reqs) es = some t → t.rest = [] →
      (AlwaysStep (endpointStep streamEnEp ep) (InTurn streamEnEp ep) (.idle reqs) es ↔
        AlwaysStep (endpointStep streamEnEp ep) (fun s _ => ¬Overtakes ep s) (.idle reqs) es) := by
  have hturn : AlwaysStep (endpointStep streamEnEp ep) (InTurn streamEnEp ep) (.idle reqs) es ↔
      AlwaysStep (endpointStep streamEnEp ep) (fun s _ => ¬Stalled s) (.idle reqs) es :=
    alwaysStep_congr (fun _ _ _ => Lined.step) (fun _ _ _ h => h.inTurn_iff) (.idle reqs)
  have hstalled : Always (endpointStep streamEnEp ep) (fun s => ¬Stalled s) (.idle reqs) es ↔
      AlwaysStep (endpointStep streamEnEp ep) (fun s _ => ¬Overtakes ep s) (.idle reqs) es :=
    always_iff_alwaysStep (fun _ _ _ => Lined.step) (fun _ _ _ h _ ht => h.stalled_iff ht)
      (.idle reqs) (not_stalled_idle reqs)
  constructor
  · intro hcondition
    exact hturn.mpr (hstalled.mpr hcondition).alwaysStep
  · intro t ht hrest
    rw [hturn, ← hstalled, always_iff_alwaysStep_last ht]
    have hlast : ¬Stalled t := by simp [Stalled, hrest]
    exact ⟨fun h => ⟨h, hlast⟩, And.left⟩

/-- Two requests to write to the host at full speed, of which the second is an explicit
zero-length packet. -/
def twoThousand : ℕ → Request
  | 0 => ⟨fun _ => 0, 2000, 0, false, 0, 0⟩
  | _ => ⟨fun _ => 0, 0, 0, false, 0, 0⟩

/-- A read of 4096 bytes. -/
def pageRead : Urb := ⟨0x81, 2, 0, 0x200, fun _ => 0, 4096, 0⟩

/-- In a frame of 1216 bytes the zero-length packet ends the read before the other 784 bytes of
the request in front of it. -/
theorem zero_length_overtakes :
    ¬AlwaysStep (endpointStep 0 ⟨64, by decide⟩) (InTurn 0 ⟨64, by decide⟩) (.idle twoThousand)
      [.queue ⟨fun _ => true, 2⟩, .call pageRead 1216, .round ⟨fun _ => true, 0⟩,
        .round ⟨fun _ => true, 0⟩] := by
  intro h
  -- The second round is about request 1, with request 0 in front of it.
  obtain ⟨-, h⟩ := h _ rfl
  obtain ⟨-, h⟩ := h _ rfl
  obtain ⟨-, h⟩ := h _ rfl
  obtain ⟨hturn, -⟩ := h _ rfl
  have hround := hturn ⟨fun _ => true, 0⟩ _ rfl rfl 0 1 (by decide +kernel) (by decide +kernel)
  exact absurd (hround.2 (by decide +kernel)).2 (by decide +kernel)

end

end FuzzUSB.DummyHcd
