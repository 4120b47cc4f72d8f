import FuzzUSB.StateMgrFsm

/-!
# What `load_fsm` keeps

The dictionaries are related to the file by an invariant of the loop, `Loaded`.
A payload survives the loop exactly when no other channel line is written for
the same pair of states.
-/

namespace FuzzUSB.StateMgr
open PyText

/-- The loop of `load_fsm` on lines that are read already. -/
def loadLines (ls : List Line) : Except LoadError Loader := ls.foldlM loadLine Loader.start

/-- The dictionaries after the lines `ls`, seen from the lines. -/
structure Loaded (ls : List Line) (st : Loader) : Prop where
  cur : st.cur = lastEdge ls
  trans_of_succ : ∀ {c n succ}, st.fsm.connStates c = some succ → n ∈ succ →
    .trans c n ∈ ls ∧ Kept (c, n)
  succ_of_trans : ∀ {c n}, .trans c n ∈ ls →
    ∃ succ, st.fsm.connStates c = some succ ∧ (Kept (c, n) → n ∈ succ)
  written_of_tran : ∀ {e k p}, st.fsm.tran k e = some p → Written ls e k p
  tran_of_ch : ∀ {e k}, st.fsm.ch e = some k → ∃ p, st.fsm.tran k e = some p
  ch_of_written : ∀ {e k p}, Written ls e k p → ∃ k', st.fsm.ch e = some k'

theorem Loaded.start : Loaded [] Loader.start where
  cur := rfl
  trans_of_succ h := by cases h
  succ_of_trans h := by cases h
  written_of_tran h := by cases h
  tran_of_ch h := by cases h
  ch_of_written := by
    rintro e k p ⟨pre, suf, h, -⟩
    simp at h

theorem Loaded.trans {ls : List Line} {st st' : Loader} {c n : ℤ} (h : Loaded ls st)
    (hl : loadLine st (.trans c n) = .ok st') : Loaded (ls ++ [.trans c n]) st' := by
  obtain rfl := Except.ok.inj hl
  have hwritten : ∀ {e k p}, Written (ls ++ [.trans c n]) e k p ↔ Written ls e k p := by
    intro e k p
    simp [written_concat]
  refine ⟨(lastEdge_concat_trans ls c n).symm, ?_, ?_, ?_, h.tran_of_ch, ?_⟩
  · intro c' n' succ hsucc hmem
    by_cases hc : c' = c
    · subst hc
      simp only [Function.update_self, Option.some.injEq] at hsucc
      -- The list before this line; a missing key counts as an empty list.
      have hold : n' ∈ (st.fsm.connStates c').getD [] → .trans c' n' ∈ ls ∧ Kept (c', n') := by
        cases hs : st.fsm.connStates c' with
        | none => simp
        | some old => exact fun hn => h.trans_of_succ hs hn
      split_ifs at hsucc with hdrop
      · have := hold (hsucc ▸ hmem)
        exact ⟨List.mem_append_left _ this.1, this.2⟩
      · rcases List.mem_cons.mp (hsucc ▸ hmem) with rfl | hn
        · exact ⟨by simp, hdrop⟩
        · exact ⟨List.mem_append_left _ (hold hn).1, (hold hn).2⟩
    · simp only [Function.update_of_ne hc] at hsucc
      have := h.trans_of_succ hsucc hmem
      exact ⟨List.mem_append_left _ this.1, this.2⟩
  · intro c' n' hmem
    by_cases hc : c' = c
    · subst hc
      refine ⟨_, Function.update_self _ _ _, fun hkept => ?_⟩
      rcases List.mem_append.mp hmem with hmem | hmem
      · obtain ⟨old, hs, hn⟩ := h.succ_of_trans hmem
        rw [hs]
        split_ifs
        · exact hn hkept
        · exact List.mem_cons_of_mem _ (hn hkept)
      · obtain ⟨-, rfl⟩ := Line.trans.inj (List.mem_singleton.mp hmem)
        rw [if_neg (show ¬(c' = 5 ∧ n' ≤ 5) from hkept)]
        exact List.mem_cons_self
    · have hmem : .trans c' n' ∈ ls := by
        rcases List.mem_append.mp hmem with hmem | hmem
        · exact hmem
        · exact absurd (Line.trans.inj (List.mem_singleton.mp hmem)).1 hc
      simpa only [Function.update_of_ne hc] using h.succ_of_trans hmem
  · exact fun ht => hwritten.mpr (h.written_of_tran ht)
  · exact fun hw => h.ch_of_written (hwritten.mp hw)

theorem Loaded.payload {ls : List Line} {st st' : Loader} {k : Channel} {p : Str}
    (h : Loaded ls st) (hl : loadLine st (.payload k p) = .ok st') :
    Loaded (ls ++ [.payload k p]) st' := by
  cases hcur : st.cur with
  | none => simp [loadLine, hcur] at hl
  | some e =>
    simp only [loadLine, hcur] at hl
    obtain rfl := Except.ok.inj hl
    have hlast : lastEdge ls = some e := h.cur ▸ hcur
    refine ⟨?_, ?_, ?_, ?_, ?_, ?_⟩
    · exact ((lastEdge_concat_payload ls k p).trans hlast).symm
    · intro c n succ hs hn
      have := h.trans_of_succ hs hn
      exact ⟨List.mem_append_left _ this.1, this.2⟩
    · intro c n hmem
      exact h.succ_of_trans (by simpa using hmem)
    -- The payload under `e'` and `k'` is the new one, or was there before.
    · intro e' k' p' ht
      rw [written_concat]
      by_cases hk : k' = k
      · subst hk
        simp only [Function.update_self] at ht
        by_cases he : e' = e
        · subst he
          rw [Function.update_self, Option.some.injEq] at ht
          exact .inr ⟨by rw [ht], hlast⟩
        · rw [Function.update_of_ne he] at ht
          exact .inl (h.written_of_tran ht)
      · simp only [Function.update_of_ne hk] at ht
        exact .inl (h.written_of_tran ht)
    -- `ch` and the table of its channel are written together, so the entry is there.
    · intro e' k' hch
      by_cases he : e' = e
      · subst he
        simp only [Function.update_self, Option.some.injEq] at hch
        subst hch
        exact ⟨p, by simp⟩
      · simp only [Function.update_of_ne he] at hch
        obtain ⟨p', hp'⟩ := h.tran_of_ch hch
        by_cases hk : k' = k
        · subst hk
          exact ⟨p', by simp [Function.update_of_ne he, hp']⟩
        · exact ⟨p', by simp [Function.update_of_ne hk, hp']⟩
    · intro e' k' p' hw
      by_cases he : e' = e
      · exact ⟨k, by simp [he]⟩
      · rcases written_concat.mp hw with hw | ⟨-, he'⟩
        · obtain ⟨k'', hk''⟩ := h.ch_of_written hw
          exact ⟨k'', by simpa [Function.update_of_ne he] using hk''⟩
        · exact absurd (Option.some.inj (he'.symm.trans hlast)) he

theorem Loaded.other {ls : List Line} {st st' : Loader} (h : Loaded ls st)
    (hl : loadLine st .other = .ok st') : Loaded (ls ++ [.other]) st' := by
  obtain rfl := Except.ok.inj hl
  refine ⟨h.cur.trans (lastEdge_concat_other ls).symm, ?_, ?_, ?_, h.tran_of_ch, ?_⟩
  · intro c n succ hs hn
    have := h.trans_of_succ hs hn
    exact ⟨List.mem_append_left _ this.1, this.2⟩
  · intro c n hmem
    exact h.succ_of_trans (by simpa using hmem)
  · exact fun ht => written_concat.mpr (.inl (h.written_of_tran ht))
  · intro e k p hw
    exact h.ch_of_written ((written_concat.mp hw).resolve_right (by simp))

/-- One turn of the loop keeps the invariant. -/
theorem Loaded.step {ls : List Line} {st st' : Loader} {l : Line} (h : Loaded ls st)
    (hl : loadLine st l = .ok st') : Loaded (ls ++ [l]) st' := by
  cases l with
  | trans c n => exact h.trans hl
  | payload k p => exact h.payload hl
  | other => exact h.other hl

theorem loadLines_concat (ls : List Line) (l : Line) :
    loadLines (ls ++ [l]) = loadLines ls >>= fun st => loadLine st l := by
  simp [loadLines, List.foldlM_append]

/-- The whole loop establishes the invariant. -/
theorem loaded_of_loadLines {ls : List Line} {st : Loader} (h : loadLines ls = .ok st) :
    Loaded ls st := by
  -- From the end of the list, since the loop handles the last line last.
  induction ls using List.reverseRecOn generalizing st with
  | nil =>
    obtain rfl := Except.ok.inj h
    exact Loaded.start
  | append_singleton ls l ih =>
    rw [loadLines_concat] at h
    cases hls : loadLines ls with
    | error e => simp [hls, bind, Except.bind] at h
    | ok st₀ =>
      rw [hls] at h
      exact (ih hls).step h

/-- The loop raises nothing when every channel line follows a `t:` line. -/
theorem exists_loadLines {ls : List Line} (h : ChannelsFollow ls) :
    ∃ st, loadLines ls = .ok st := by
  induction ls using List.reverseRecOn with
  | nil => exact ⟨_, rfl⟩
  | append_singleton ls l ih =>
    obtain ⟨st, hst⟩ := ih h.of_concat
    rw [loadLines_concat, hst]
    cases l with
    | trans c n => exact ⟨_, rfl⟩
    | other => exact ⟨_, rfl⟩
    | payload k p =>
      cases hcur : st.cur with
      | none => exact absurd ((loaded_of_loadLines hst).cur.symm.trans hcur) (h ls k p [] rfl)
      | some e => simp [bind, Except.bind, loadLine, hcur]

/-- Reading all lines first and looping over them after is what `load_fsm` computes. -/
theorem foldlM_readLine (st : Loader) (file : List Str) (ls : List Line)
    (hread : file.map readLine = ls.map .ok) :
    file.foldlM (fun st l => readLine l >>= loadLine st) st = ls.foldlM loadLine st := by
  induction file generalizing st ls with
  | nil =>
    obtain rfl := List.map_eq_nil_iff.mp hread.symm
    rfl
  | cons l file ih =>
    obtain ⟨x, ls, rfl, hx, hls⟩ := List.map_eq_cons_iff.mp hread.symm
    rw [List.foldlM_cons, List.foldlM_cons, ← hx]
    congr 1
    funext st'
    exact ih st' ls hls.symm

theorem loadFsm_eq {file : List Str} {ls : List Line} (hread : file.map readLine = ls.map .ok) :
    loadFsm file = (loadLines ls).map Loader.fsm := by
  unfold loadFsm
  rw [foldlM_readLine _ file ls hread, ← loadLines]
  cases loadLines ls <;> rfl

theorem exists_lines_of_foldlM {file : List Str} {st st' : Loader}
    (h : file.foldlM (fun st l => readLine l >>= loadLine st) st = .ok st') :
    ∃ ls : List Line, file.map readLine = ls.map .ok := by
  induction file generalizing st with
  | nil => exact ⟨[], rfl⟩
  | cons l file ih =>
    rw [List.foldlM_cons] at h
    cases hl : readLine l with
    | error e => simp [hl, bind, Except.bind] at h
    | ok x =>
      rw [hl] at h
      change (loadLine st x >>= _) = _ at h
      cases hx : loadLine st x with
      | error e => simp [hx, bind, Except.bind] at h
      | ok st₁ =>
        rw [hx] at h
        obtain ⟨ls, hls⟩ := ih h
        exact ⟨x :: ls, by simp [hl, hls]⟩

/-- A file that `load_fsm` gets through was read line by line, and its dictionaries
satisfy the invariant. -/
theorem loaded_of_loadFsm {file : List Str} {m : Fsm} (h : loadFsm file = .ok m) :
    ∃ ls st, file.map readLine = ls.map .ok ∧ Loaded ls st ∧ st.fsm = m := by
  cases hfold : file.foldlM (fun st l => readLine l >>= loadLine st) Loader.start with
  | error e =>
    rw [loadFsm, hfold] at h
    cases h
  | ok st =>
    obtain ⟨ls, hls⟩ := exists_lines_of_foldlM hfold
    rw [foldlM_readLine _ file ls hls] at hfold
    refine ⟨ls, st, hls, loaded_of_loadLines hfold, ?_⟩
    rw [loadFsm_eq hls, loadLines, hfold] at h
    exact Except.ok.inj h

/-! ## Payloads that survive -/

/-- No transition of the file is lost: `ch` and the payload tables give back what is
written, and a walk that reaches the edge of a host-side payload dispatches it. -/
def LosesNothing (ls : List Line) (m : Fsm) : Prop :=
  (∀ e k p, m.Recovered e k p ↔ Written ls e k p) ∧
  ∀ e k p, k = .c3 ∨ k = .c4 → Written ls e k p → m.Chosen e →
    ∃ e', m.Chosen e' ∧ runTrans m e' = some (some (k, p), e'.2)

/-- No two channel lines for one pair of states differ. -/
def OnePayloadPerEdge (ls : List Line) : Prop :=
  ∀ e k p k' p', Written ls e k p → Written ls e k' p' → k = k' ∧ p = p'

theorem Fsm.Recovered.unique {m : Fsm} {e : Edge} {k k' : Channel} {p p' : Str}
    (h : m.Recovered e k p) (h' : m.Recovered e k' p') : k = k' ∧ p = p' := by
  obtain rfl := Option.some.inj (h.1.symm.trans h'.1)
  exact ⟨rfl, Option.some.inj (h.2.symm.trans h'.2)⟩

theorem runTrans_of_recovered {m : Fsm} {e : Edge} {k : Channel} {p : Str}
    (hk : k = .c3 ∨ k = .c4) (h : m.Recovered e k p) :
    runTrans m e = some (some (k, p), e.2) := by
  rcases hk with rfl | rfl <;> simp [runTrans, h.1, h.2]

theorem Loaded.written_of_recovered {ls : List Line} {st : Loader} (h : Loaded ls st) {e : Edge}
    {k : Channel} {p : Str} (hr : st.fsm.Recovered e k p) : Written ls e k p :=
  h.written_of_tran hr.2

/-- For a pair of states with a channel line, some channel line of the pair survives. -/
theorem Loaded.exists_recovered {ls : List Line} {st : Loader} (h : Loaded ls st) {e : Edge}
    {k : Channel} {p : Str} (hw : Written ls e k p) : ∃ k' p', st.fsm.Recovered e k' p' := by
  obtain ⟨k', hk'⟩ := h.ch_of_written hw
  obtain ⟨p', hp'⟩ := h.tran_of_ch hk'
  exact ⟨k', p', hk', hp'⟩

theorem Loaded.losesNothing_iff {ls : List Line} {st : Loader} (h : Loaded ls st) :
    LosesNothing ls st.fsm ↔ OnePayloadPerEdge ls := by
  constructor
  · rintro ⟨hrec, -⟩ e k p k' p' hw hw'
    exact ((hrec e k p).mpr hw).unique ((hrec e k' p').mpr hw')
  · intro hone
    have hrec : ∀ e k p, st.fsm.Recovered e k p ↔ Written ls e k p := by
      refine fun e k p => ⟨h.written_of_recovered, fun hw => ?_⟩
      obtain ⟨k', p', hr⟩ := h.exists_recovered hw
      obtain ⟨rfl, rfl⟩ := hone e k p k' p' hw (h.written_of_recovered hr)
      exact hr
    exact ⟨hrec, fun e k p hk hw hchosen =>
      ⟨e, hchosen, runTrans_of_recovered hk ((hrec e k p).mpr hw)⟩⟩

/-- `load_fsm` loses no transition exactly when the channel lines of each pair of states
agree. The tables hold one channel and one payload for a pair of states, while
`conn_states` keeps an entry for every `t:` line. -/
theorem loadFsm_losesNothing_iff (file : List Str) (ls : List Line)
    (hread : file.map readLine = ls.map .ok) (hfollow : ChannelsFollow ls) :
    ∃ m, loadFsm file = .ok m ∧ (LosesNothing ls m ↔ OnePayloadPerEdge ls) := by
  obtain ⟨st, hst⟩ := exists_loadLines hfollow
  refine ⟨st.fsm, by rw [loadFsm_eq hread, hst]; rfl, ?_⟩
  exact (loaded_of_loadLines hst).losesNothing_iff

/-- Two transitions from state 6 to state 7, each with its own host payload. -/
def parallelFile : List Str :=
  ["t:6,7\n".toList, "c3:a\n".toList, "t:6,7\n".toList, "c3:b\n".toList]

def parallelLines : List Line :=
  [.trans 6 7, .payload .c3 "a".toList, .trans 6 7, .payload .c3 "b".toList]

theorem loadFsm_losesNothing_iff_parallel :
    ∃ m, loadFsm parallelFile = .ok m ∧
      (LosesNothing parallelLines m ↔ OnePayloadPerEdge parallelLines) :=
  loadFsm_losesNothing_iff parallelFile parallelLines (by decide) (channelsFollow_trans_cons _ _ _)

/-- The second payload of a pair of states replaces the first. -/
theorem loadFsm_loses_parallel :
    ∃ file ls m, file.map readLine = ls.map .ok ∧ ChannelsFollow ls ∧ loadFsm file = .ok m ∧
      ¬LosesNothing ls m := by
  have hread : parallelFile.map readLine = parallelLines.map .ok := by decide
  have hfollow : ChannelsFollow parallelLines := channelsFollow_trans_cons _ _ _
  obtain ⟨st, hst⟩ := exists_loadLines hfollow
  refine ⟨parallelFile, parallelLines, st.fsm, hread, hfollow, ?_, ?_⟩
  · rw [loadFsm_eq hread, hst]
    rfl
  · rw [(loaded_of_loadLines hst).losesNothing_iff]
    intro hone
    have hfirst : Written parallelLines (6, 7) .c3 "a".toList :=
      ⟨[.trans 6 7], _, rfl, rfl⟩
    have hsecond : Written parallelLines (6, 7) .c3 "b".toList :=
      ⟨parallelLines.take 3, [], rfl, rfl⟩
    exact absurd (hone _ _ _ _ _ hfirst hsecond).2 (by decide)

end FuzzUSB.StateMgr
