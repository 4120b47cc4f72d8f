import FuzzUSB.DummyHcdQueues

/-!
# The emulated single-request FIFO

`dummy_queue` completes a small request of an idle IN endpoint at once and lets the request of
the FIFO take its place in the queue. To the host this looks as if the request itself were
queued.
-/

namespace FuzzUSB.DummyHcd.Udc
open Transition ByteFlow CLayout

/-! ## The bus -/

/-- `dummy_queue` without the FIFO. -/
def Dummy.linkingQueue (d : Dummy) (ep : EpIdx) (r : ℕ) : ℤ × Dummy × Option ℕ :=
  if !d.unlinked r || !d.hasComplete r then (-eInval, d, none)
  else if d.desc ep = none ∧ ep ≠ 0 then (-eInval, d, none)
  else if !d.driver || !d.isEnabled then (-eShutdown, d, none)
  else
    (0, (d.setReq r { d.reqs r with status := -eInProgress, actual := 0 }).listAddTail ep r, none)

/-- A call of `transfer` that waits for a callback. -/
structure Paused where
  streamEnEp : BitVec 32
  ep : EpIdx
  limit : ℤ
  sent : ℤ
  status : ℤ

/-- The gadget side, the URBs by number, the calls of `transfer` on them that have not
returned, and what those that have returned gave for an URB: its status and `sent`. -/
structure Bus where
  dum : Dummy
  urbs : ℕ → Urb
  paused : ℕ → Option Paused
  returned : List (ℕ × ℤ × ℤ)

/-- No request is queued. -/
def Bus.start (dum : Dummy) (urbs : ℕ → Urb) : Bus :=
  ⟨{ dum with queue := fun _ => [] }, urbs, fun _ => none, []⟩

inductive BusCall
  /-- A gadget driver fills in a request, if that is not queued, and calls `dummy_queue`. -/
  | queue (ep : EpIdx) (r : ℕ) (req : Request)
  /-- `transfer` is called, up to a callback or its end. -/
  | transfer (u : ℕ) (streamEnEp : BitVec 32) (ep : EpIdx) (limit : BitVec 32) (rounds : ℕ)
  /-- A callback has returned. -/
  | resume (u : ℕ) (rounds : ℕ)

/-- `transfer` returns. -/
def Bus.finish (s : Bus) (u : ℕ) (status sent : ℤ) : Bus :=
  { s with
    paused := Function.update s.paused u none
    returned := s.returned ++ [(u, status, sent)] }

/-- `transfer` drops the lock for a callback. -/
def Bus.pause (s : Bus) (u : ℕ) (p : Paused) : Bus :=
  { s with paused := Function.update s.paused u (some p) }

/-- The URB, the requests and the queue are as `transfer` leaves them. -/
def Bus.leave (s : Bus) (u : ℕ) (ep : EpIdx) (t : DummyHcd.State) : Bus :=
  { s with
    dum := { s.dum with
      reqs := t.reqs
      queue := Function.update s.dum.queue ep t.queue }
    urbs := Function.update s.urbs u t.urb }

/-- `transfer` goes over the queue from its head. -/
def Bus.advance (s : Bus) (u : ℕ) (p : Paused) (rounds : ℕ) : Option Bus :=
  match scan p.streamEnEp (s.dum.usbEp p.ep) rounds
    ⟨s.urbs u, s.dum.reqs, 0, [], s.dum.queue p.ep, p.limit, p.sent, p.status, []⟩ with
  | none => none
  | some (t, given) =>
    some (match given with
      | some _ =>
        (s.leave u p.ep t).pause u { p with limit := t.limit, sent := t.sent, status := t.status }
      | none => (s.leave u p.ep t).finish u t.status t.sent)

/-- What a call does, with one of the two versions of `dummy_queue`. -/
def Bus.act (queue : Dummy → EpIdx → ℕ → ℤ × Dummy × Option ℕ) (s : Bus) : BusCall → Option Bus
  | .queue ep r req =>
    if r = fifoReq then none
    else
      let dum := if s.dum.unlinked r then s.dum.setReq r req else s.dum
      some { s with dum := (queue dum ep r).2.1 }
  | .transfer u streamEnEp ep limit rounds =>
    if (s.paused u).isSome then none
    else s.advance u ⟨streamEnEp, ep, limit.toInt, 0, -eInProgress⟩ rounds
  | .resume u rounds =>
    match s.paused u with
    | none => none
    | some p =>
      if p.status ≠ -eInProgress then some (s.finish u p.status p.sent)
      else s.advance u p rounds

/-- The gadget overwrites the requests that it has. -/
def Bus.overwrite (s : Bus) (own : ℕ → Request) : Bus :=
  { s with dum := { s.dum with
      reqs := fun r => if r ≠ fifoReq ∧ s.dum.unlinked r then own r else s.dum.reqs r } }

/-- A call, and what the gadget makes of the requests that it has afterwards. -/
def busStep (queue : Dummy → EpIdx → ℕ → ℤ × Dummy × Option ℕ) (s : Bus)
    (e : BusCall × (ℕ → Request)) : Option Bus :=
  (s.act queue e.1).map fun t => t.overwrite e.2

/-- No request is queued again while it is in a queue. -/
def Fresh (s : Bus) (e : BusCall × (ℕ → Request)) : Prop :=
  ∀ ep r req, e.1 = .queue ep r req → s.dum.unlinked r = true

/-! ## Requests that the host cannot tell apart -/

structure Agree (a b : Request) : Prop where
  length : b.length = a.length
  streamId : b.streamId = a.streamId
  zero : b.zero = a.zero
  status : b.status = a.status
  actual : b.actual = a.actual
  le : a.actual ≤ a.length
  buf : ∀ i < a.length, b.buf i = a.buf i

/-- Two states of `transfer` with the same URB. In the second the requests have other names,
which tell apart those in `S`. -/
structure Twin (name : ℕ → ℕ) (S : ℕ → Prop) (t u : DummyHcd.State) : Prop where
  urb : u.urb = t.urb
  limit : u.limit = t.limit
  sent : u.sent = t.sent
  status : u.status = t.status
  arrived : u.arrived = t.arrived
  before : u.before = t.before.map name
  rest : u.rest = t.rest.map name
  queued : ∀ r ∈ t.before ++ t.rest, S r
  distinct : ∀ r r', S r → S r' → name r = name r' → r = r'
  agree : ∀ r, S r → Agree (t.reqs r) (u.reqs (name r))

section

variable {name : ℕ → ℕ} {S : ℕ → Prop} {t u : DummyHcd.State} {i : ℕ} {a b : Request}

theorem Agree.devLen (h : Agree a b) : b.devLen = a.devLen := by
  rw [Request.devLen, Request.devLen, h.length, h.actual]

theorem Agree.setStatus (h : Agree a b) (status : ℤ) :
    Agree { a with status := status } { b with status := status } :=
  ⟨h.length, h.streamId, h.zero, rfl, h.actual, h.le, h.buf⟩

theorem Agree.advance (h : Agree a b) {n : ℕ} (hn : n ≤ a.devLen) :
    Agree { a with actual := a.actual + n } { b with actual := b.actual + n } := by
  have hle := h.le
  rw [Request.devLen] at hn
  refine ⟨h.length, h.streamId, h.zero, h.status, by simp only [h.actual], ?_, h.buf⟩
  simp only
  omega

theorem copy_congr {β : Type*} {dst src src' : ℕ → β} {dstPos srcPos n : ℕ}
    (h : ∀ k < n, src' (srcPos + k) = src (srcPos + k)) :
    copy dst dstPos src' srcPos n = copy dst dstPos src srcPos n := by
  funext p
  unfold copy
  split
  · exact h _ (by omega)
  · rfl

theorem asInt_toNat_le (n : ℕ) : (asInt n).toNat ≤ n := by
  have hmod := Nat.mod_le n (2 ^ 32)
  rw [asInt, BitVec.toInt_eq_toNat_cond, BitVec.toNat_ofNat]
  split <;> omega

/-- The same bytes are moved. -/
theorem Agree.perform (h : Agree a b) (urb : Urb) {len : ℕ} (hlen : len ≤ a.devLen) :
    (dummyPerformTransfer urb b len).1 = (dummyPerformTransfer urb a len).1 ∧
      Agree (dummyPerformTransfer urb a len).2.1 (dummyPerformTransfer urb b len).2.1 ∧
      (dummyPerformTransfer urb a len).2.1.devLen = a.devLen ∧
      (dummyPerformTransfer urb b len).2.2 = asInt len ∧
      (dummyPerformTransfer urb a len).2.2 = asInt len := by
  have hle := h.le
  rw [Request.devLen] at hlen
  unfold dummyPerformTransfer
  cases urb.dirIn with
  | true =>
    have hcopy : copy urb.transferBuffer urb.actualLength b.buf b.actual len =
        copy urb.transferBuffer urb.actualLength a.buf a.actual len := by
      rw [h.actual]
      exact copy_congr fun k hk => h.buf _ (by omega)
    simp only [if_true, hcopy]
    exact ⟨trivial, h, trivial, trivial, trivial⟩
  | false =>
    refine ⟨rfl, ⟨h.length, h.streamId, h.zero, h.status, h.actual, h.le, fun k hk => ?_⟩,
      rfl, rfl, rfl⟩
    simp only [Bool.false_eq_true, if_false, copy, h.actual]
    split
    · rfl
    · exact h.buf k hk

/-- A request is changed on both sides. -/
theorem Twin.update (h : Twin name S t u) (hi : S i) (hab : Agree a b) (r : ℕ) (hr : S r) :
    Agree (Function.update t.reqs i a r) (Function.update u.reqs (name i) b (name r)) := by
  by_cases heq : r = i
  · subst heq
    rw [Function.update_self, Function.update_self]
    exact hab
  · rw [Function.update_of_ne heq, Function.update_of_ne fun hn => heq (h.distinct r i hr hi hn)]
    exact h.agree r hr

theorem Twin.moveSome (h : Twin name S t u) (hi : S i) {len : ℕ}
    (hlen : len ≤ (t.reqs i).devLen) :
    Twin name S (t.moveSome i len) (u.moveSome (name i) len) := by
  rw [DummyHcd.State.moveSome, DummyHcd.State.moveSome]
  split
  · exact h
  · obtain ⟨hurb, hreq, hdev, hret, hret'⟩ := (h.agree i hi).perform t.urb hlen
    rw [DummyHcd.State.move, DummyHcd.State.move, h.urb]
    revert hurb hreq hdev hret hret'
    generalize dummyPerformTransfer t.urb (t.reqs i) len = x
    generalize dummyPerformTransfer t.urb (u.reqs (name i)) len = y
    obtain ⟨urb, req, ret⟩ := x
    obtain ⟨urb', req', ret'⟩ := y
    rintro rfl hreq hdev rfl rfl
    dsimp only at hreq hdev ⊢
    split
    · exact ⟨rfl, h.limit, h.sent, h.status, h.arrived, h.before, h.rest, h.queued, h.distinct,
        h.update hi (hreq.setStatus _)⟩
    · have hle : (asInt len).toNat ≤ req.devLen := by
        rw [hdev]
        exact (asInt_toNat_le len).trans hlen
      exact ⟨rfl, by simp only [h.limit], by simp only [h.sent], h.status, h.arrived, h.before,
        h.rest, h.queued, h.distinct, h.update hi (hreq.advance hle)⟩

theorem Twin.settle (h : Twin name S t u) (hi : S i) (hostLen devLen : ℕ) (isShort : Bool) :
    Twin name S (t.settle i hostLen devLen isShort) (u.settle (name i) hostLen devLen isShort) := by
  have hreq := h.agree i hi
  unfold DummyHcd.State.settle
  dsimp only
  rw [h.urb, h.status, hreq.length, hreq.actual, hreq.zero, hreq.status]
  cases isShort with
  | true =>
    exact ⟨rfl, h.limit, h.sent, rfl, h.arrived, h.before, h.rest, h.queued, h.distinct,
      h.update hi ⟨rfl, hreq.streamId, rfl, rfl, rfl, hreq.le, hreq.buf⟩⟩
  | false =>
    exact ⟨rfl, h.limit, h.sent, rfl, h.arrived, h.before, h.rest, h.queued, h.distinct,
      h.update hi ⟨rfl, hreq.streamId, rfl, rfl, rfl, hreq.le, hreq.buf⟩⟩

theorem Twin.wantsZlp (h : Twin name S t u) (hi : S i) : u.wantsZlp (name i) = t.wantsZlp i := by
  have hreq := h.agree i hi
  rw [DummyHcd.State.wantsZlp, DummyHcd.State.wantsZlp, h.urb, hreq.length, hreq.actual, hreq.zero]

/-- The queues are the same but for the names. -/
theorem Twin.relink (h : Twin name S t u) (before rest : List ℕ)
    (hqueued : ∀ r ∈ before ++ rest, S r) {urb : Urb} {limit status : ℤ} {before' rest' : List ℕ}
    (hurb : urb = t.urb) (hlimit : limit = t.limit) (hstatus : status = t.status)
    (hbefore : before' = before.map name) (hrest : rest' = rest.map name) :
    Twin name S { t with before := before, rest := rest }
      ⟨urb, u.reqs, u.arrived, before', rest', limit, u.sent, status, u.moved⟩ :=
  ⟨hurb, hlimit, h.sent, hstatus, h.arrived, hbefore, hrest, hqueued, h.distinct, h.agree⟩

/-- The end of a round, while no request is queued or unlinked by others. -/
theorem Twin.conclude (h : Twin name S t u) {rest : List ℕ} (hrest : t.rest = i :: rest)
    (rescan : Bool) : Twin name S (t.conclude i rest rescan ⟨fun _ => true, 0⟩)
      (u.conclude (name i) (rest.map name) rescan ⟨fun _ => true, 0⟩) := by
  have hqueued := h.queued
  rw [hrest] at hqueued
  have hi : S i := hqueued i (by simp)
  have hless : ∀ r ∈ t.before ++ rest, S r := fun r hr =>
    hqueued r (((List.sublist_cons_self i rest).append_left t.before).mem hr)
  have hall (l : List ℕ) (n : ℕ) : l.filter (fun _ => true) ++ List.range' n 0 = l := by simp
  unfold DummyHcd.State.conclude
  dsimp only
  rw [hall, hall, (h.agree i hi).status, h.status, h.before]
  split_ifs
  · apply h.relink (t.before ++ rest) [] (by simpa using hless)
    all_goals simp [h.urb, h.limit]
  · apply h.relink [] (t.before ++ rest) (by simpa using hless)
    all_goals simp [h.urb, h.limit]
  · apply h.relink (t.before ++ i :: rest) [] (by simpa using hqueued)
    all_goals simp [h.urb, h.limit]
  · apply h.relink [] (t.before ++ i :: rest) (by simpa using hqueued)
    all_goals simp [h.urb, h.limit]
  · apply h.relink (t.before ++ [i]) rest (by simpa using hqueued)
    all_goals simp [h.urb, h.limit]

theorem portion_len_le {maxpacket len : ℕ} {limit : ℤ} {p : Portion}
    (h : portion maxpacket limit len = some p) : p.len ≤ len := by
  simp only [portion] at h
  split_ifs at h
  all_goals
    obtain rfl := Option.some.inj h
    simp only
    omega

/-- A round does the same on both sides. -/
theorem Twin.visit (h : Twin name S t u) {rest : List ℕ} (hrest : t.rest = i :: rest)
    (streamEnEp : BitVec 32) (ep : Endpoint) :
    Twin name S (t.visit streamEnEp ep i rest ⟨fun _ => true, 0⟩)
      (u.visit streamEnEp ep (name i) (rest.map name) ⟨fun _ => true, 0⟩) := by
  have hqueued := h.queued
  rw [hrest] at hqueued
  have hi : S i := hqueued i (by simp)
  have hreq := h.agree i hi
  unfold DummyHcd.State.visit
  rw [h.urb, hreq.streamId, hreq.devLen, h.limit, h.before]
  split
  · apply h.relink (t.before ++ [i]) rest (by simpa using hqueued)
    all_goals simp [h.status]
  · dsimp only
    cases hportion : portion ep.maxpacket t.limit (min t.urb.hostLen (t.reqs i).devLen) with
    | none =>
      apply h.relink (t.before ++ i :: rest) [] (by simpa using hqueued)
      all_goals simp [h.status]
    | some p =>
      have hlen := (portion_len_le hportion).trans (Nat.min_le_right _ _)
      have hmoved := h.moveSome hi hlen
      have hsettled := hmoved.settle hi t.urb.hostLen (t.reqs i).devLen p.isShort
      have hhead : ((t.moveSome i p.len).settle i t.urb.hostLen (t.reqs i).devLen
          p.isShort).rest = i :: rest := by
        rw [((t.moveSome i p.len).settle_queue i _ _ _).2.1, (t.moveSome_queue i p.len).2.1, hrest]
      dsimp only
      rw [hmoved.wantsZlp hi]
      exact hsettled.conclude hhead _

/-- `transfer` comes to the same point on both sides. -/
theorem Twin.scan (h : Twin name S t u) (streamEnEp : BitVec 32) (ep : Endpoint) (rounds : ℕ)
    {t' : DummyHcd.State} {given : Option ℕ}
    (hscan : scan streamEnEp ep rounds t = some (t', given)) :
    ∃ u', Udc.scan streamEnEp ep rounds u = some (u', given.map name) ∧ Twin name S t' u' := by
  induction rounds generalizing t u with
  | zero => cases hscan
  | succ rounds ih =>
    unfold Udc.scan at hscan ⊢
    rw [h.rest]
    cases hrest : t.rest with
    | nil =>
      rw [hrest] at hscan
      obtain ⟨rfl, rfl⟩ := Prod.mk.inj (Option.some.inj hscan)
      exact ⟨u, rfl, h⟩
    | cons r rest =>
      rw [hrest] at hscan
      have hvisit := h.visit hrest streamEnEp ep
      have hqueued := h.queued
      rw [hrest] at hqueued
      have hr : S r := hqueued r (by simp)
      have hmem : name r ∈ (u.visit streamEnEp ep (name r) (rest.map name)
          ⟨fun _ => true, 0⟩).queue ↔
          r ∈ (t.visit streamEnEp ep r rest ⟨fun _ => true, 0⟩).queue := by
        rw [DummyHcd.State.queue, hvisit.before, hvisit.rest, ← List.map_append]
        constructor
        · intro hin
          obtain ⟨r', hr', heq⟩ := List.mem_map.mp hin
          obtain rfl := h.distinct r' r (hvisit.queued r' hr') hr heq
          exact hr'
        · exact List.mem_map_of_mem
      rw [List.map_cons]
      dsimp only at hscan ⊢
      simp only [hmem]
      split at hscan
      · next hin =>
        rw [if_pos hin]
        exact ih hvisit hscan
      · next hout =>
        obtain ⟨rfl, rfl⟩ := Prod.mk.inj (Option.some.inj hscan)
        rw [if_neg hout]
        exact ⟨_, rfl, hvisit⟩

end

/-! ## Both versions -/

/-- What is queued for a request. The request of the FIFO stands for the one that it has
shadowed. -/
def standIn (shadow : Option ℕ) (r : ℕ) : ℕ := if shadow = some r then fifoReq else r

/-- The queues have the same requests, but for the request of the FIFO. -/
structure Mirrors (shadow : Option ℕ) (d d' : Dummy) : Prop where
  single : ∀ r, linked d.queue r ≤ 1
  noFifo : linked d.queue fifoReq = 0
  held : ∀ r, shadow = some r → linked d.queue r ≠ 0
  queue : ∀ ep, d'.queue ep = (d.queue ep).map (standIn shadow)
  agree : ∀ r, linked d.queue r ≠ 0 → Agree (d.reqs r) (d'.reqs (standIn shadow r))

/-- Nothing else is different to the functions of the bus. -/
structure SamePort (d d' : Dummy) : Prop where
  hasComplete : d'.hasComplete = d.hasComplete
  desc : d'.desc = d.desc
  usbEp : d'.usbEp = d.usbEp
  driver : d'.driver = d.driver
  isEnabled : d'.isEnabled = d.isEnabled

/-- The host sees the same. -/
structure SameHost (s t : Bus) : Prop where
  urbs : t.urbs = s.urbs
  paused : t.paused = s.paused
  returned : t.returned = s.returned
  port : SamePort s.dum t.dum
  mirrors : ∃ shadow, Mirrors shadow s.dum t.dum

section

variable {shadow : Option ℕ} {d d' : Dummy} {ep : EpIdx} {r : ℕ}

theorem linked_ne_zero {queue : EpIdx → List ℕ} (hr : r ∈ queue ep) : linked queue r ≠ 0 :=
  fun hzero => linked_eq_zero.mp hzero ep hr

theorem standIn_of_ne (h : shadow ≠ some r) : standIn shadow r = r := if_neg h

theorem standIn_injective {r r' : ℕ} (hr : r ≠ fifoReq) (hr' : r' ≠ fifoReq)
    (h : standIn shadow r = standIn shadow r') : r = r' := by
  unfold standIn at h
  split_ifs at h with hs hs'
  · exact Option.some.inj (hs.symm.trans hs')
  · exact absurd h.symm hr'
  · exact absurd h hr
  · exact h

theorem Mirrors.ne_fifo (h : Mirrors shadow d d') (hr : linked d.queue r ≠ 0) : r ≠ fifoReq := by
  rintro rfl
  exact hr h.noFifo

/-- A request that is not queued in the one version is not queued in the other. -/
theorem Mirrors.unlinked (h : Mirrors shadow d d') (hr : linked d.queue r = 0)
    (hne : r ≠ fifoReq) : linked d'.queue r = 0 := by
  rw [linked_eq_zero] at hr ⊢
  intro ep hin
  rw [h.queue ep] at hin
  obtain ⟨r', hr', heq⟩ := List.mem_map.mp hin
  unfold standIn at heq
  split_ifs at heq
  · exact hne heq.symm
  · exact hr ep (heq ▸ hr')

theorem Mirrors.standIn_linked (h : Mirrors shadow d d') (hr : linked d.queue r ≠ 0) :
    linked d'.queue (standIn shadow r) ≠ 0 := by
  intro hzero
  rw [linked_eq_zero] at hzero
  refine hr (linked_eq_zero.mpr fun ep hin => hzero ep ?_)
  rw [h.queue ep]
  exact List.mem_map_of_mem hin

/-- The FIFO is free when it shadows no request. -/
theorem Mirrors.shadow_eq_none (h : Mirrors shadow d d') (hfree : linked d'.queue fifoReq = 0) :
    shadow = none := by
  cases hs : shadow with
  | none => rfl
  | some r =>
    have hlinked := h.standIn_linked (h.held r hs)
    rw [standIn, if_pos hs] at hlinked
    exact absurd hfree hlinked

/-- A request is put into a queue, and for it what stands for it. -/
theorem Mirrors.link {shadow' : Option ℕ} {e e' : Dummy} (h : Mirrors shadow d d')
    (hr : linked d.queue r = 0) (hne : r ≠ fifoReq)
    (hqueue : e.queue = Function.update d.queue ep (d.queue ep ++ [r]))
    (hqueue' : e'.queue =
      Function.update d'.queue ep (d'.queue ep ++ [standIn shadow' r]))
    (hheld : ∀ r', shadow' = some r' → shadow = some r' ∨ r' = r)
    (hsame : ∀ r', linked d.queue r' ≠ 0 → standIn shadow' r' = standIn shadow r' ∧
      e.reqs r' = d.reqs r' ∧ e'.reqs (standIn shadow r') = d'.reqs (standIn shadow r'))
    (hnew : Agree (e.reqs r) (e'.reqs (standIn shadow' r))) : Mirrors shadow' e e' := by
  have hcount := linked_concat d.queue ep r
  rw [← hqueue] at hcount
  have hself : linked e.queue r = 1 := by rw [hcount, hr, times_self]
  have hother (r' : ℕ) (hr' : r' ≠ r) : linked e.queue r' = linked d.queue r' := by
    rw [hcount, times, if_neg (by simpa using hr'.symm), Nat.add_zero]
  refine ⟨fun r' => ?_, ?_, fun r' hr' => ?_, fun ep' => ?_, fun r' hr' => ?_⟩
  · by_cases heq : r' = r
    · rw [heq, hself]
    · rw [hother r' heq]
      exact h.single r'
  · rw [hother fifoReq hne.symm]
    exact h.noFifo
  · by_cases heq : r' = r
    · rw [heq, hself]
      exact one_ne_zero
    · rw [hother r' heq]
      exact h.held r' ((hheld r' hr').resolve_right heq)
  · have hmap (ep' : EpIdx) : (d.queue ep').map (standIn shadow') = d'.queue ep' := by
      rw [h.queue ep']
      exact List.map_congr_left fun r' hr' => (hsame r' (linked_ne_zero hr')).1
    rw [hqueue, hqueue']
    by_cases heq : ep' = ep
    · subst heq
      rw [Function.update_self, Function.update_self, List.map_append, hmap]
      rfl
    · rw [Function.update_of_ne heq, Function.update_of_ne heq, hmap]
  · by_cases heq : r' = r
    · rw [heq]
      exact hnew
    · rw [hother r' heq] at hr'
      obtain ⟨hname, hreq, hreq'⟩ := hsame r' hr'
      rw [hname, hreq, hreq']
      exact h.agree r' hr'

theorem standIn_ne (hr : linked d.queue r = 0) (hne : r ≠ fifoReq) {r' : ℕ}
    (hr' : linked d.queue r' ≠ 0) : standIn shadow r' ≠ r := by
  unfold standIn
  split_ifs
  · exact hne.symm
  · rintro rfl
    exact hr' hr

/-- Requests and queues are not looked at. -/
theorem SamePort.update (h : SamePort d d') (reqs reqs' : ℕ → Request)
    (queue queue' : EpIdx → List ℕ) :
    SamePort { d with reqs := reqs, queue := queue } { d' with reqs := reqs', queue := queue' } :=
  ⟨h.hasComplete, h.desc, h.usbEp, h.driver, h.isEnabled⟩

/-- The same request is filled in. -/
theorem Mirrors.prepare (h : Mirrors shadow d d') (hr : linked d.queue r = 0) (hne : r ≠ fifoReq)
    (req : Request) : Mirrors shadow (d.setReq r req) (d'.setReq r req) := by
  refine ⟨h.single, h.noFifo, h.held, h.queue, fun r' hr' => ?_⟩
  have hold : r' ≠ r := fun heq => hr' (heq ▸ hr)
  simp only [Dummy.setReq]
  rw [Function.update_of_ne hold, Function.update_of_ne (standIn_ne hr hne hr')]
  exact h.agree r' hr'

/-- The FIFO is free, and its request is queued for another. -/
theorem Mirrors.shadowed (h : Mirrors none d d') (hr : linked d.queue r = 0) (hne : r ≠ fifoReq)
    {req : Request} (hreq : d.reqs r = req) (hreq' : d'.reqs r = req)
    (hle : req.actual ≤ req.length) (done : Request) :
    Mirrors (some r) (d.listAddTail ep r)
      (((d'.fillFifo r).listAddTail ep fifoReq).setReq r done) := by
  have hname : standIn (some r) r = fifoReq := if_pos rfl
  refine h.link hr hne rfl (by rw [hname]; rfl) (fun r' hr' => .inr (Option.some.inj hr').symm)
    (fun r' hr' => ?_) ?_
  · have hold : r' ≠ r := fun heq => hr' (heq ▸ hr)
    have hother : r' ≠ fifoReq := h.ne_fifo hr'
    have hkept : standIn none r' = r' := standIn_of_ne nofun
    rw [standIn_of_ne fun heq => hold (Option.some.inj heq).symm, hkept]
    refine ⟨rfl, rfl, ?_⟩
    simp only [Dummy.setReq, Dummy.listAddTail, Dummy.fillFifo]
    rw [Function.update_of_ne hold, Function.update_of_ne hother]
  · rw [hname]
    simp only [Dummy.setReq, Dummy.listAddTail, Dummy.fillFifo]
    rw [Function.update_of_ne hne.symm, Function.update_self, hreq, hreq']
    refine ⟨rfl, rfl, rfl, rfl, rfl, hle, fun i hi => ?_⟩
    simp [copy, hi]

/-- The request is queued in both versions. -/
theorem Mirrors.both (h : Mirrors shadow d d') (hr : linked d.queue r = 0) (hne : r ≠ fifoReq)
    {req : Request} (hreq : d.reqs r = req) (hreq' : d'.reqs r = req)
    (hle : req.actual ≤ req.length) :
    Mirrors shadow (d.listAddTail ep r) (d'.listAddTail ep r) := by
  have hname : standIn shadow r = r := standIn_of_ne fun heq => h.held r heq hr
  refine h.link hr hne rfl (by rw [hname]; rfl) (fun r' hr' => .inl hr')
    (fun r' hr' => ⟨rfl, rfl, rfl⟩) ?_
  rw [hname]
  simp only [Dummy.listAddTail]
  rw [hreq, hreq']
  exact ⟨rfl, rfl, rfl, rfl, rfl, hle, fun i hi => rfl⟩

/-- The two versions of `dummy_queue`. -/
theorem Mirrors.queueCall (h : Mirrors shadow d d') (hport : SamePort d d')
    (hr : linked d.queue r = 0) (hne : r ≠ fifoReq) (hreq : d'.reqs r = d.reqs r) (ep : EpIdx) :
    SamePort (d.linkingQueue ep r).2.1 (d'.dummyQueue ep r).2.1 ∧
      ∃ shadow', Mirrors shadow' (d.linkingQueue ep r).2.1 (d'.dummyQueue ep r).2.1 := by
  have hfree : d.unlinked r = true := unlinked_iff.mpr hr
  have hfree' : d'.unlinked r = true := unlinked_iff.mpr (h.unlinked hr hne)
  unfold Dummy.linkingQueue Dummy.dummyQueue
  rw [hfree, hfree', hport.hasComplete, hport.desc, hport.driver, hport.isEnabled, hreq]
  split
  · exact ⟨hport, shadow, h⟩
  · split
    · exact ⟨hport, shadow, h⟩
    · split
      · exact ⟨hport, shadow, h⟩
      · have hinit := h.prepare hr hne { d.reqs r with status := -eInProgress, actual := 0 }
        have hself (d : Dummy) (req : Request) : (d.setReq r req).reqs r = req :=
          Function.update_self ..
        simp only
        split
        · next hfifo =>
          -- The FIFO takes the data, so it had shadowed none.
          simp only [Bool.and_eq_true] at hfifo
          obtain rfl := hinit.shadow_eq_none (unlinked_iff.mp hfifo.1.1.2)
          refine ⟨hport.update _ _ _ _, some r, ?_⟩
          exact hinit.shadowed hr hne (hself _ _) (hself _ _) (Nat.zero_le _) _
        · refine ⟨hport.update _ _ _ _, shadow, ?_⟩
          exact hinit.both hr hne (hself _ _) (hself _ _) (Nat.zero_le _)

theorem linked_sublist {queue : EpIdx → List ℕ} {l : List ℕ} (h : l.Sublist (queue ep)) (r : ℕ) :
    linked (Function.update queue ep l) r ≤ linked queue r := by
  have hupdate := linked_update queue ep l r
  have hcount := h.count_le r
  omega

/-- The shadow is kept as long as its request is queued. -/
theorem Mirrors.unlink (h : Mirrors shadow d d') {t t' : DummyHcd.State}
    (htwin : Twin (standIn shadow) (fun r => linked d.queue r ≠ 0) t t')
    (hsub : t.queue.Sublist (d.queue ep)) :
    ∃ shadow', Mirrors shadow'
      { d with reqs := t.reqs, queue := Function.update d.queue ep t.queue }
      { d' with reqs := t'.reqs, queue := Function.update d'.queue ep t'.queue } := by
  have hless := linked_sublist hsub
  revert hless
  generalize hnew : Function.update d.queue ep t.queue = queue
  intro hless
  have hold (r : ℕ) (hr : linked queue r ≠ 0) : linked d.queue r ≠ 0 := by
    have := hless r
    omega
  have hname (r : ℕ) (hr : linked queue r ≠ 0) :
      standIn (shadow.filter fun r => linked queue r ≠ 0) r = standIn shadow r := by
    unfold standIn
    congr 1
    simp [Option.filter_eq_some_iff, hr]
  refine ⟨shadow.filter fun r => linked queue r ≠ 0, fun r => (hless r).trans (h.single r), ?_,
    fun r hr => ?_, fun ep' => ?_, fun r hr => ?_⟩
  · have hzero := h.noFifo
    have := hless fifoReq
    simp only
    omega
  · simpa using (Option.filter_eq_some_iff.mp hr).2
  · simp only
    rw [List.map_congr_left fun r hr => hname r (linked_ne_zero hr), ← hnew]
    by_cases heq : ep' = ep
    · subst heq
      rw [Function.update_self, Function.update_self, DummyHcd.State.queue,
        DummyHcd.State.queue, htwin.before, htwin.rest, List.map_append]
    · rw [Function.update_of_ne heq, Function.update_of_ne heq, h.queue ep']
  · simp only [hname r hr]
    exact htwin.agree r (hold r hr)

theorem SameHost.finish {s t : Bus} (h : SameHost s t) (u : ℕ) (status sent : ℤ) :
    SameHost (s.finish u status sent) (t.finish u status sent) :=
  ⟨h.urbs, by simp only [Bus.finish, h.paused], by simp only [Bus.finish, h.returned], h.port,
    h.mirrors⟩

theorem SameHost.pause {s t : Bus} (h : SameHost s t) (u : ℕ) (p : Paused) :
    SameHost (s.pause u p) (t.pause u p) :=
  ⟨h.urbs, by simp only [Bus.pause, h.paused], h.returned, h.port, h.mirrors⟩

/-- `transfer` comes to the same point with both versions, and the host sees the same. -/
theorem SameHost.advance {s t : Bus} (h : SameHost s t) (u : ℕ) (p : Paused) (rounds : ℕ)
    {s' : Bus} (hs : s.advance u p rounds = some s') :
    ∃ t', t.advance u p rounds = some t' ∧ SameHost s' t' := by
  obtain ⟨shadow, hm⟩ := h.mirrors
  unfold Bus.advance at hs ⊢
  split at hs
  · cases hs
  · next t₁ given hscan =>
    have htwin : Twin (standIn shadow) (fun r => linked s.dum.queue r ≠ 0)
        ⟨s.urbs u, s.dum.reqs, 0, [], s.dum.queue p.ep, p.limit, p.sent, p.status, []⟩
        ⟨t.urbs u, t.dum.reqs, 0, [], t.dum.queue p.ep, p.limit, p.sent, p.status, []⟩ := by
      refine ⟨by rw [h.urbs], rfl, rfl, rfl, rfl, rfl, hm.queue p.ep, fun r hr => ?_,
        fun r r' hr hr' => standIn_injective (hm.ne_fifo hr) (hm.ne_fifo hr'), hm.agree⟩
      exact linked_ne_zero hr
    obtain ⟨t₂, hscan', htwin'⟩ := htwin.scan p.streamEnEp (s.dum.usbEp p.ep) rounds hscan
    have hnodup : (s.dum.queue p.ep).Nodup := List.nodup_iff_count_le_one.mpr fun r =>
      (count_le_linked p.ep).trans (hm.single r)
    have hsub : t₁.queue.Sublist (s.dum.queue p.ep) := by
      rcases scan_queue (by simpa [DummyHcd.State.queue] using hnodup) hscan with
        ⟨-, hsame⟩ | ⟨r, -, -, hless⟩
      · rw [hsame]
        exact List.Sublist.refl _
      · rw [hless]
        exact List.erase_sublist
    have hm' := hm.unlink htwin' hsub
    rw [h.port.usbEp, hscan']
    obtain rfl := Option.some.inj hs
    refine ⟨_, rfl, ?_⟩
    have hleft : SameHost (s.leave u p.ep t₁) (t.leave u p.ep t₂) :=
      ⟨by simp only [Bus.leave, h.urbs, htwin'.urb], h.paused, h.returned,
        h.port.update _ _ _ _, hm'⟩
    rw [htwin'.limit, htwin'.sent, htwin'.status]
    cases given with
    | some r => exact hleft.pause u _
    | none => exact hleft.finish u _ _

/-- The host sees the same after a call with either version of `dummy_queue`. -/
theorem SameHost.act {s t : Bus} (h : SameHost s t) (c : BusCall) {s' : Bus}
    (hfresh : ∀ ep r req, c = .queue ep r req → s.dum.unlinked r = true)
    (hs : s.act Dummy.linkingQueue c = some s') :
    ∃ t', t.act Dummy.dummyQueue c = some t' ∧ SameHost s' t' := by
  cases c with
  | queue ep r req =>
    simp only [Bus.act] at hs ⊢
    split at hs
    · cases hs
    · next hne =>
      obtain ⟨shadow, hm⟩ := h.mirrors
      have hfree := hfresh ep r req rfl
      have hr := unlinked_iff.mp hfree
      have hfree' : t.dum.unlinked r = true := unlinked_iff.mpr (hm.unlinked hr hne)
      rw [if_pos hfree] at hs
      obtain rfl := Option.some.inj hs
      rw [if_neg hne, if_pos hfree']
      have hreq : (t.dum.setReq r req).reqs r = (s.dum.setReq r req).reqs r := by
        simp only [Dummy.setReq, Function.update_self]
      have hport : SamePort (s.dum.setReq r req) (t.dum.setReq r req) := h.port.update _ _ _ _
      obtain ⟨hport', hm'⟩ := (hm.prepare hr hne req).queueCall hport hr hne hreq ep
      exact ⟨_, rfl, h.urbs, h.paused, h.returned, hport', hm'⟩
  | transfer u streamEnEp ep limit rounds =>
    simp only [Bus.act, h.paused] at hs ⊢
    split at hs
    · cases hs
    · next hidle =>
      rw [if_neg hidle]
      exact h.advance u _ rounds hs
  | resume u rounds =>
    simp only [Bus.act, h.paused] at hs ⊢
    cases hp : s.paused u with
    | none =>
      rw [hp] at hs
      cases hs
    | some p =>
      rw [hp] at hs
      dsimp only at hs ⊢
      split at hs
      · next hdone =>
        obtain rfl := Option.some.inj hs
        rw [if_pos hdone]
        exact ⟨_, rfl, h.finish u _ _⟩
      · next hbusy =>
        rw [if_neg hbusy]
        exact h.advance u p rounds hs

/-- The gadget does not have the requests that are queued. -/
theorem SameHost.overwrite {s t : Bus} (h : SameHost s t) (own own' : ℕ → Request) :
    SameHost (s.overwrite own) (t.overwrite own') := by
  obtain ⟨shadow, hm⟩ := h.mirrors
  refine ⟨h.urbs, h.paused, h.returned, h.port.update _ _ _ _, shadow, hm.single, hm.noFifo,
    hm.held, hm.queue, fun r hr => ?_⟩
  have hbusy : ¬(r ≠ fifoReq ∧ s.dum.unlinked r = true) := fun hown =>
    hr (unlinked_iff.mp hown.2)
  have hbusy' : ¬(standIn shadow r ≠ fifoReq ∧ t.dum.unlinked (standIn shadow r) = true) :=
    fun hown => hm.standIn_linked hr (unlinked_iff.mp hown.2)
  simp only [Bus.overwrite]
  rw [if_neg hbusy, if_neg hbusy']
  exact hm.agree r hr

theorem sameHost_start (dum : Dummy) (urbs : ℕ → Urb) :
    SameHost (.start dum urbs) (.start dum urbs) := by
  have hzero (r : ℕ) : linked (fun _ => []) r = 0 := linked_eq_zero.mpr fun _ => List.not_mem_nil
  refine ⟨rfl, rfl, rfl, ⟨rfl, rfl, rfl, rfl, rfl⟩, none, fun r => ?_, hzero _, nofun,
    fun ep => rfl, fun r hr => absurd (hzero r) hr⟩
  exact (hzero r).le.trans (Nat.zero_le 1)

end

/-- As long as no request is queued again while it is in a queue of the version without the
FIFO, the host sees the same with both versions, whatever the gadget makes of the requests
that it has. -/
theorem fifo_invisible (dum : Dummy) (urbs : ℕ → Urb)
    (es : List (BusCall × (ℕ → Request) × (ℕ → Request))) {s : Bus}
    (hfresh : AlwaysStep (busStep Dummy.linkingQueue) Fresh (.start dum urbs)
      (es.map fun e => (e.1, e.2.1)))
    (hs : runs (busStep Dummy.linkingQueue) (.start dum urbs)
      (es.map fun e => (e.1, e.2.1)) = some s) :
    ∃ t, runs (busStep Dummy.dummyQueue) (.start dum urbs)
        (es.map fun e => (e.1, e.2.2)) = some t ∧
      t.urbs = s.urbs ∧ t.paused = s.paused ∧ t.returned = s.returned := by
  have hstep (s t : Bus) (e : BusCall × (ℕ → Request) × (ℕ → Request)) (s' : Bus)
      (hst : SameHost s t) (hfresh : Fresh s (e.1, e.2.1))
      (hs : busStep Dummy.linkingQueue s (e.1, e.2.1) = some s') :
      ∃ t', busStep Dummy.dummyQueue t (e.1, e.2.2) = some t' ∧ SameHost s' t' := by
    obtain ⟨s₁, hs₁, rfl⟩ := Option.map_eq_some_iff.mp hs
    obtain ⟨t₁, ht₁, hst₁⟩ := hst.act e.1 hfresh hs₁
    exact ⟨_, Option.map_eq_some_iff.mpr ⟨t₁, ht₁, rfl⟩, hst₁.overwrite _ _⟩
  obtain ⟨t, ht, hsame⟩ := runs_simulation hstep (sameHost_start dum urbs) hfresh hs
  exact ⟨t, ht, hsame.urbs, hsame.paused, hsame.returned⟩

/-! ## Examples -/

def oneByte (b : Byte) : Request := ⟨fun _ => b, 1, 0, false, 0, 0⟩

/-- Requests of one byte, and IN endpoints. -/
def inEndpoints : Dummy where
  reqs _ := oneByte 7
  hasComplete _ := true
  queue _ := []
  desc _ := some 0x81
  usbEp _ := ⟨512, by decide⟩
  driver := true
  isEnabled := true

def inUrb : Urb := ⟨0x81, 2, 0, urbDirIn, fun _ => 0, 2, 0⟩

/-- A request is queued and sent. The gadget overwrites it as soon as it has it back. -/
def sentOnce : List (BusCall × (ℕ → Request) × (ℕ → Request)) :=
  [(.queue 1 5 (oneByte 7), fun _ => oneByte 8, fun _ => oneByte 3),
    (.transfer 0 0 1 100 3, fun _ => oneByte 9, fun _ => oneByte 4),
    (.resume 0 3, fun _ => oneByte 9, fun _ => oneByte 4)]

theorem fifo_invisible_sentOnce :
    ∃ s t, runs (busStep Dummy.linkingQueue) (.start inEndpoints fun _ => inUrb)
        (sentOnce.map fun e => (e.1, e.2.1)) = some s ∧
      runs (busStep Dummy.dummyQueue) (.start inEndpoints fun _ => inUrb)
        (sentOnce.map fun e => (e.1, e.2.2)) = some t ∧
      t.urbs = s.urbs ∧ t.paused = s.paused ∧ t.returned = s.returned := by
  have hfresh : AlwaysStep (busStep Dummy.linkingQueue) Fresh
      (.start inEndpoints fun _ => inUrb) (sentOnce.map fun e => (e.1, e.2.1)) := by
    refine fun s hs => ⟨fun ep r req heq => ?_, fun t ht => ⟨nofun, fun u hu => ⟨nofun, trivial⟩⟩⟩
    cases heq
    decide
  have hruns : (runs (busStep Dummy.linkingQueue) (.start inEndpoints fun _ => inUrb)
      (sentOnce.map fun e => (e.1, e.2.1))).isSome := by decide +kernel
  obtain ⟨s, hs⟩ := Option.isSome_iff_exists.mp hruns
  obtain ⟨t, ht⟩ := fifo_invisible inEndpoints (fun _ => inUrb) sentOnce hfresh hs
  exact ⟨s, t, hs, ht⟩

/-- A request is queued, queued again and sent. -/
def queuedTwice : List (BusCall × (ℕ → Request) × (ℕ → Request)) :=
  [.queue 1 5 (oneByte 7), .queue 1 5 (oneByte 7), .transfer 0 0 1 100 3, .resume 0 3,
    .transfer 1 0 1 100 3].map fun c => (c, fun _ => oneByte 7, fun _ => oneByte 7)

/-- The FIFO has the data when the request is queued again, so that the second URB gets the
byte once more. Without the FIFO the request is refused, as it is still queued. -/
theorem queuedTwice_visible :
    (runs (busStep Dummy.linkingQueue) (.start inEndpoints fun _ => inUrb)
      (queuedTwice.map fun e => (e.1, e.2.1))).map (fun s => (s.urbs 1).actualLength) = some 0 ∧
    (runs (busStep Dummy.dummyQueue) (.start inEndpoints fun _ => inUrb)
      (queuedTwice.map fun e => (e.1, e.2.2))).map (fun s => (s.urbs 1).actualLength) = some 1 := by
  decide +kernel

end FuzzUSB.DummyHcd.Udc
