import FuzzUSB.ReportStack
import FuzzUSB.ReportTitle
import FuzzUSB.VmLoop

/-!
# The description of a crash

`extractDescription` goes through the formats of an oops once, and keeps the description of a
format until the title of a later one is found further to the left.
-/

namespace FuzzUSB.CrashReport
open TextLines CLayout
open VmLoop (CrashType)

/-- A group that takes no part in the match is sliced at -1. -/
inductive Panic
  | sliceBounds

/-- What the loop of `extractDescription` has so far. No format is the zero value. -/
structure Search where
  startPos : ℕ
  matchedTitle : Bool
  desc : Bytes
  corrupted : String
  format : Option OopsFormat

structure Description where
  desc : Bytes
  corrupted : String
  format : Option OopsFormat

def extractedNoStackFrame : String := "extracted no stack frame"
def matchedTitleOnly : String := "matched title but not report regexp"
def markedCorrupted : String := "report format is marked as corrupted"

section

variable (mustCompile : Bytes → Regexp) (params : StackParams) (output : Bytes)

/-- The strings that a match has captured. -/
def captured (m : Match) : Except Panic (List Bytes) :=
  m.groups.mapM fun g =>
    match g with
    | some (i, j) => .ok (slice output i j)
    | none => .error .sliceBounds

/-- The description of a format whose expressions have matched, and why it is corrupted. -/
def describe (f : OopsFormat) (m : Match) : Except Panic (Bytes × String) :=
  (captured output m).map fun args =>
    match f.stack with
    | none => (f.fmt args, "")
    | some stack =>
      let r := extractStackFrame mustCompile params stack (output.drop m.start)
      if r.1 = [] then
        (f.fmt (args ++ [ascii "corrupted"]), if r.2 = "" then extractedNoStackFrame else r.2)
      else (f.fmt (args ++ [r.1]), r.2)

/-- The rest of a round once the title has matched; `none` if the report does not. -/
def described (f : OopsFormat) (title : Match) : Except Panic (Option (Bytes × String)) :=
  match f.report with
  | none => (describe mustCompile params output f title).map some
  | some report =>
    match report.find output with
    | none => .ok none
    | some m => (describe mustCompile params output f m).map some

/-- A title has matched. Further to the left, it discards what was found. -/
def Search.restart (s : Search) (start : ℕ) : Search :=
  if start < s.startPos then ⟨start, true, [], s.corrupted, none⟩
  else { s with matchedTitle := true }

def Search.keep (s : Search) (f : OopsFormat) : Option (Bytes × String) → Search
  | none => s
  | some r => { s with desc := r.1, corrupted := r.2, format := some f }

/-- One round of the loop. -/
def visit (s : Search) (f : OopsFormat) : Except Panic Search :=
  match f.title.find output with
  | none => .ok s
  | some m =>
    if s.startPos < m.start then .ok s
    else if m.start = s.startPos ∧ s.desc ≠ [] then .ok s
    else (described mustCompile params output f m).map ((s.restart m.start).keep f)

/-- The end of `extractDescription`. -/
def conclude (desc : Bytes) (corrupted : String) (format : Option OopsFormat) : Description :=
  ⟨desc, if corrupted = "" ∧ format.any (·.corrupted) then markedCorrupted else corrupted, format⟩

/-- The line of the header, from the header on. -/
def headerLine (header : Bytes) : Option Bytes :=
  (index header output).map fun pos => slice output pos (pos + (output.drop pos).idxOf newline)

/-- What is returned behind the loop. -/
def Search.result (header : Bytes) (s : Search) : Description :=
  if s.desc = [] then
    let corrupted := if s.matchedTitle then matchedTitleOnly else s.corrupted
    match headerLine output header with
    | none => ⟨[], corrupted, s.format⟩
    | some desc => conclude desc corrupted s.format
  else conclude s.desc s.corrupted s.format

def extractDescription (oops : Oops) : Except Panic Description :=
  (oops.formats.foldlM (visit mustCompile params output) ⟨output.length, false, [], "", none⟩).map
    (Search.result output oops.header)

/-! ## No panic -/

/-- In every match of the expression, every group takes part. -/
def Regexp.Captures (re : Regexp) : Prop :=
  ∀ s m, re.find s = some m → ∀ g ∈ m.groups, g.isSome

/-- The arguments of the description are there. -/
def OopsFormat.Captures (f : OopsFormat) : Prop := (f.report.getD f.title).Captures

/-! ## The format that is taken -/

/-- Where the title of a format is found. -/
def titleAt (f : OopsFormat) : Option ℕ := (f.title.find output).map Match.start

/-- The description of a format, if its expressions match. -/
def attempt (f : OopsFormat) : Option (Bytes × String) :=
  (f.title.find output).bind fun m =>
    match described mustCompile params output f m with
    | .ok r => r
    | .error _ => none

/-- A format with its title at `p` that has something to say. -/
def candidate (p : ℕ) (f : OopsFormat) : Bool :=
  titleAt output f = some p && (attempt mustCompile params output f).any fun r => r.1 ≠ []

/-- The titles of the formats begin at `p` and behind it. -/
structure Leftmost (formats : List OopsFormat) (p : ℕ) : Prop where
  found : ∃ f ∈ formats, titleAt output f = some p
  least : ∀ f ∈ formats, ∀ q, titleAt output f = some q → p ≤ q

/-- What the loop knows after some formats: the leftmost of their titles, and the description of
the first format that has one there. -/
structure Visited (formats : List OopsFormat) (s : Search) : Prop where
  least : ∀ f ∈ formats, ∀ q, titleAt output f = some q → s.startPos ≤ q
  matched : s.matchedTitle = true → ∃ f ∈ formats, titleAt output f = some s.startPos
  unmatched : s.matchedTitle = false → s.desc = [] ∧ s.corrupted = "" ∧ s.format = none ∧
    s.startPos = output.length ∧ ∀ f ∈ formats, titleAt output f = none
  first : ∀ f, formats.find? (candidate mustCompile params output s.startPos) = some f →
    attempt mustCompile params output f = some (s.desc, s.corrupted) ∧ s.format = some f
  silent : formats.find? (candidate mustCompile params output s.startPos) = none → s.desc = []

end

variable {mustCompile : Bytes → Regexp} {params : StackParams} {output : Bytes}

section

variable (mustCompile params output)

theorem captured_ok {m : Match} (h : ∀ g ∈ m.groups, g.isSome) :
    ∃ args, captured output m = .ok args := by
  obtain ⟨start, stop, groups⟩ := m
  unfold captured
  dsimp only at h ⊢
  induction groups with
  | nil => exact ⟨[], rfl⟩
  | cons g gs ih =>
    obtain ⟨hg, hgs⟩ := List.forall_mem_cons.mp h
    obtain ⟨⟨i, j⟩, rfl⟩ := Option.isSome_iff_exists.mp hg
    obtain ⟨args, hargs⟩ := ih hgs
    refine ⟨slice output i j :: args, ?_⟩
    rw [List.mapM_cons, hargs]
    rfl

theorem describe_ok (f : OopsFormat) {re : Regexp} (hre : re.Captures) {m : Match}
    (hm : re.find output = some m) : ∃ r, describe mustCompile params output f m = .ok r := by
  obtain ⟨args, hargs⟩ := captured_ok output (hre _ _ hm)
  rw [describe, hargs]
  exact ⟨_, rfl⟩

theorem described_ok {f : OopsFormat} (hf : f.Captures) {title : Match}
    (htitle : f.title.find output = some title) :
    ∃ r, described mustCompile params output f title = .ok r := by
  unfold OopsFormat.Captures at hf
  unfold described
  cases hreport : f.report with
  | none =>
    rw [hreport] at hf
    obtain ⟨r, hr⟩ := describe_ok mustCompile params output f hf htitle
    exact ⟨some r, congrArg (Except.map some) hr⟩
  | some report =>
    rw [hreport] at hf
    dsimp only
    cases hm : report.find output with
    | none => exact ⟨none, rfl⟩
    | some m =>
      obtain ⟨r, hr⟩ := describe_ok mustCompile params output f hf hm
      exact ⟨some r, congrArg (Except.map some) hr⟩

theorem visit_ok (s : Search) {f : OopsFormat} (hf : f.Captures) :
    ∃ t, visit mustCompile params output s f = .ok t := by
  unfold visit
  cases hm : f.title.find output with
  | none => exact ⟨s, rfl⟩
  | some m =>
    obtain ⟨r, hr⟩ := described_ok mustCompile params output hf hm
    dsimp only
    split_ifs
    · exact ⟨s, rfl⟩
    · exact ⟨s, rfl⟩
    · exact ⟨_, by rw [hr]; rfl⟩

theorem visits_ok {fs : List OopsFormat} (h : ∀ f ∈ fs, f.Captures) (s : Search) :
    ∃ t, fs.foldlM (visit mustCompile params output) s = .ok t := by
  induction fs generalizing s with
  | nil => exact ⟨s, rfl⟩
  | cons f fs ih =>
    obtain ⟨hf, hfs⟩ := List.forall_mem_cons.mp h
    obtain ⟨t, ht⟩ := visit_ok mustCompile params output s hf
    obtain ⟨u, hu⟩ := ih hfs t
    exact ⟨u, by rw [List.foldlM_cons, ht]; exact hu⟩

theorem extractDescription_ok {oops : Oops} (h : ∀ f ∈ oops.formats, f.Captures) :
    ∃ d, extractDescription mustCompile params output oops = .ok d := by
  obtain ⟨s, hs⟩ := visits_ok mustCompile params output h ⟨output.length, false, [], "", none⟩
  exact ⟨_, by rw [extractDescription, hs]; rfl⟩

end

theorem titleAt_le {f : OopsFormat} {p : ℕ} (h : titleAt output f = some p) :
    p ≤ output.length := by
  obtain ⟨m, hm, rfl⟩ := Option.map_eq_some_iff.mp h
  have hbounds := f.title.bounds output m hm
  omega

theorem candidate_titleAt {p : ℕ} {f : OopsFormat}
    (h : candidate mustCompile params output p f = true) : titleAt output f = some p := by
  simp only [candidate, Bool.and_eq_true, decide_eq_true_eq] at h
  exact h.1

theorem find_concat_of_not {p : ℕ} {l : List OopsFormat} {f : OopsFormat}
    (hf : candidate mustCompile params output p f = false) :
    (l ++ [f]).find? (candidate mustCompile params output p) =
      l.find? (candidate mustCompile params output p) := by
  rw [List.find?_append, List.find?_cons_of_neg (by simp [hf]), List.find?_nil, Option.or_none]

/-- A format that is passed over: its title is not found, or not so far to the left. -/
theorem Visited.skip {l : List OopsFormat} {s : Search} {f : OopsFormat}
    (hs : Visited mustCompile params output l s)
    (hf : ∀ q, titleAt output f = some q → s.startPos ≤ q ∧ s.matchedTitle = true)
    (hcand : candidate mustCompile params output s.startPos f = true → s.desc ≠ []) :
    Visited mustCompile params output (l ++ [f]) s := by
  have hfind : (l ++ [f]).find? (candidate mustCompile params output s.startPos) =
      l.find? (candidate mustCompile params output s.startPos) := by
    cases hc : candidate mustCompile params output s.startPos f with
    | false => exact find_concat_of_not hc
    | true =>
      cases hl : l.find? (candidate mustCompile params output s.startPos) with
      | none => exact absurd (hs.silent hl) (hcand hc)
      | some g => rw [List.find?_append, hl, Option.some_or]
  refine ⟨fun g hg q hq => ?_, fun h => ?_, fun h => ?_, hfind ▸ hs.first, hfind ▸ hs.silent⟩
  · rcases List.mem_append.mp hg with hg | hg
    · exact hs.least g hg q hq
    · obtain rfl := List.mem_singleton.mp hg
      exact (hf q hq).1
  · obtain ⟨g, hg, hq⟩ := hs.matched h
    exact ⟨g, List.mem_append_left _ hg, hq⟩
  · obtain ⟨hdesc, hcorrupted, hformat, hpos, hnone⟩ := hs.unmatched h
    refine ⟨hdesc, hcorrupted, hformat, hpos, fun g hg => ?_⟩
    rcases List.mem_append.mp hg with hg | hg
    · exact hnone g hg
    · obtain rfl := List.mem_singleton.mp hg
      apply Option.eq_none_iff_forall_ne_some.mpr
      intro q hq
      rw [(hf q hq).2] at h
      cases h

/-- A format whose title is the leftmost so far, and the first there. -/
theorem Visited.take {l : List OopsFormat} {s : Search} {f : OopsFormat} {m : Match}
    (hs : Visited mustCompile params output l s) (hm : f.title.find output = some m)
    (hle : m.start ≤ s.startPos) (hdesc : m.start = s.startPos → s.desc = [])
    {r : Option (Bytes × String)} (hr : described mustCompile params output f m = .ok r) :
    Visited mustCompile params output (l ++ [f]) ((s.restart m.start).keep f r) := by
  have htitle : titleAt output f = some m.start := by rw [titleAt, hm]; rfl
  have hattempt : attempt mustCompile params output f = r := by
    rw [attempt, hm, Option.bind_some, hr]
  -- Nothing stands at this position yet.
  have hnone : l.find? (candidate mustCompile params output m.start) = none := by
    cases hl : l.find? (candidate mustCompile params output m.start) with
    | none => rfl
    | some g =>
      have hg := List.find?_some hl
      have hpos := hs.least g (List.mem_of_find?_eq_some hl) _ (candidate_titleAt hg)
      have heq : m.start = s.startPos := by omega
      rw [heq] at hl hg
      obtain ⟨hgot, -⟩ := hs.first g hl
      simp [candidate, hgot, hdesc heq] at hg
  have hrestart : (s.restart m.start).startPos = m.start ∧
      (s.restart m.start).matchedTitle = true ∧ (s.restart m.start).desc = [] := by
    unfold Search.restart
    split
    · exact ⟨rfl, rfl, rfl⟩
    · have heq : m.start = s.startPos := by omega
      exact ⟨heq.symm, rfl, hdesc heq⟩
  obtain ⟨hstart, hmatched, hempty⟩ := hrestart
  have hstart' : ((s.restart m.start).keep f r).startPos = m.start := by
    cases r <;> exact hstart
  have hmatched' : ((s.restart m.start).keep f r).matchedTitle = true := by
    cases r <;> exact hmatched
  have hcand : candidate mustCompile params output m.start f = r.any fun r => r.1 ≠ [] := by
    rw [candidate, htitle, hattempt]
    simp
  refine ⟨fun g hg q hq => ?_, fun _ => ?_, fun h => ?_, fun g hg => ?_, fun hg => ?_⟩
  · rw [hstart']
    rcases List.mem_append.mp hg with hg | hg
    · have := hs.least g hg q hq
      omega
    · obtain rfl := List.mem_singleton.mp hg
      exact (Option.some.inj (htitle.symm.trans hq)).le
  · rw [hstart']
    exact ⟨f, List.mem_append_right _ (List.mem_singleton_self f), htitle⟩
  · rw [hmatched'] at h
    cases h
  · rw [hstart', List.find?_append, hnone, Option.none_or, List.find?_singleton, hcand] at hg
    cases r with
    | none => cases hg
    | some r =>
      split at hg
      · obtain rfl := Option.some.inj hg
        exact ⟨hattempt, rfl⟩
      · cases hg
  · rw [hstart', List.find?_append, hnone, Option.none_or, List.find?_singleton, hcand] at hg
    cases r with
    | none => exact hempty
    | some r =>
      split at hg
      · cases hg
      · next hr =>
        show r.1 = []
        simpa using hr

theorem Visited.visit {l : List OopsFormat} {s t : Search} {f : OopsFormat}
    (hs : Visited mustCompile params output l s)
    (h : visit mustCompile params output s f = .ok t) :
    Visited mustCompile params output (l ++ [f]) t := by
  unfold CrashReport.visit at h
  cases hm : f.title.find output with
  | none =>
    rw [hm] at h
    obtain rfl := Except.ok.inj h
    have htitle : titleAt output f = none := by rw [titleAt, hm]; rfl
    refine hs.skip (fun q hq => ?_) fun hc => ?_
    · rw [htitle] at hq
      cases hq
    · have hq := candidate_titleAt hc
      rw [htitle] at hq
      cases hq
  | some m =>
    have htitle : titleAt output f = some m.start := by rw [titleAt, hm]; rfl
    rw [hm] at h
    dsimp only at h
    split_ifs at h with hlt hkept
    · obtain rfl := Except.ok.inj h
      refine hs.skip (fun q hq => ?_) fun hc => ?_
      · obtain rfl := Option.some.inj (htitle.symm.trans hq)
        refine ⟨hlt.le, ?_⟩
        by_contra hno
        have hpos := (hs.unmatched (Bool.not_eq_true _ ▸ hno)).2.2.2.1
        have hle := titleAt_le htitle
        omega
      · have hq := Option.some.inj (htitle.symm.trans (candidate_titleAt hc))
        omega
    · obtain rfl := Except.ok.inj h
      refine hs.skip (fun q hq => ?_) fun _ => hkept.2
      obtain rfl := Option.some.inj (htitle.symm.trans hq)
      refine ⟨hkept.1.ge, ?_⟩
      by_contra hno
      exact hkept.2 (hs.unmatched (Bool.not_eq_true _ ▸ hno)).1
    · cases hr : described mustCompile params output f m with
      | error e =>
        rw [hr] at h
        cases h
      | ok r =>
        rw [hr] at h
        obtain rfl := Except.ok.inj h
        exact hs.take hm (Nat.not_lt.mp hlt) (fun heq => by_contra fun hne => hkept ⟨heq, hne⟩) hr

theorem visited_foldlM {l fs : List OopsFormat} {s t : Search}
    (hs : Visited mustCompile params output l s)
    (h : fs.foldlM (visit mustCompile params output) s = .ok t) :
    Visited mustCompile params output (l ++ fs) t := by
  induction fs generalizing l s with
  | nil =>
    obtain rfl := Except.ok.inj h
    rwa [List.append_nil]
  | cons f fs ih =>
    rw [List.foldlM_cons] at h
    cases hv : visit mustCompile params output s f with
    | error e =>
      rw [hv] at h
      cases h
    | ok u =>
      rw [hv] at h
      have hrest := ih (hs.visit hv) h
      rwa [List.append_assoc, List.singleton_append] at hrest

/-- The description is that of the first format with the leftmost title that has one, if there is
such a format, and the line of the header otherwise. -/
structure Taken (mustCompile : Bytes → Regexp) (params : StackParams) (output : Bytes)
    (oops : Oops) (d : Description) : Prop where
  first : ∀ p, Leftmost output oops.formats p → ∀ f,
    oops.formats.find? (candidate mustCompile params output p) = some f →
    ∃ corrupted, attempt mustCompile params output f = some (d.desc, corrupted) ∧
      d = conclude d.desc corrupted (some f)
  silent : ∀ p, Leftmost output oops.formats p →
    oops.formats.find? (candidate mustCompile params output p) = none →
    d.desc = (headerLine output oops.header).getD [] ∧ d.corrupted = matchedTitleOnly
  unmatched : (∀ f ∈ oops.formats, titleAt output f = none) →
    d = ⟨(headerLine output oops.header).getD [], "", none⟩

theorem visited_start (formats : List OopsFormat) (h : formats = []) :
    Visited mustCompile params output formats ⟨output.length, false, [], "", none⟩ := by
  subst h
  exact ⟨by simp, by simp, fun _ => ⟨rfl, rfl, rfl, rfl, by simp⟩, by simp, fun _ => rfl⟩

theorem taken_of_ok {oops : Oops} {d : Description}
    (h : extractDescription mustCompile params output oops = .ok d) :
    Taken mustCompile params output oops d := by
  unfold extractDescription at h
  cases hfold : oops.formats.foldlM (visit mustCompile params output)
      ⟨output.length, false, [], "", none⟩ with
  | error e =>
    rw [hfold] at h
    cases h
  | ok s =>
    rw [hfold] at h
    have hd : s.result output oops.header = d := Except.ok.inj h
    unfold Search.result at hd
    have hs : Visited mustCompile params output oops.formats s :=
      visited_foldlM (visited_start [] rfl) hfold
    have hpos (p : ℕ) (hp : Leftmost output oops.formats p) :
        s.startPos = p ∧ s.matchedTitle = true := by
      obtain ⟨f, hf, hq⟩ := hp.found
      have hmatched : s.matchedTitle = true := by
        by_contra hno
        have hnone := (hs.unmatched (Bool.not_eq_true _ ▸ hno)).2.2.2.2 f hf
        rw [hnone] at hq
        cases hq
      obtain ⟨g, hg, hgq⟩ := hs.matched hmatched
      exact ⟨le_antisymm (hs.least f hf p hq) (hp.least g hg _ hgq), hmatched⟩
    refine ⟨fun p hp f hf => ?_, fun p hp hnone => ?_, fun hnone => ?_⟩
    · obtain ⟨rfl, -⟩ := hpos p hp
      obtain ⟨hgot, hformat⟩ := hs.first f hf
      have hne : s.desc ≠ [] := by
        have hcand := List.find?_some hf
        simp [candidate, hgot] at hcand
        exact hcand.2
      rw [if_neg hne, hformat] at hd
      subst hd
      exact ⟨s.corrupted, hgot, rfl⟩
    · obtain ⟨rfl, hmatched⟩ := hpos p hp
      rw [if_pos (hs.silent hnone), hmatched] at hd
      cases hline : headerLine output oops.header with
      | none =>
        rw [hline] at hd
        subst hd
        exact ⟨rfl, rfl⟩
      | some desc =>
        rw [hline] at hd
        subst hd
        have hreason : (conclude desc matchedTitleOnly s.format).corrupted = matchedTitleOnly := by
          unfold conclude
          rw [if_neg fun h => absurd h.1 (by decide)]
        exact ⟨rfl, hreason⟩
    · have hmatched : s.matchedTitle = false := by
        by_contra hyes
        obtain ⟨f, hf, hq⟩ := hs.matched (Bool.not_eq_false _ ▸ hyes)
        rw [hnone f hf] at hq
        cases hq
      obtain ⟨hdesc, hcorrupted, hformat, -⟩ := hs.unmatched hmatched
      rw [if_pos hdesc, hmatched, hcorrupted, hformat] at hd
      cases hline : headerLine output oops.header with
      | none =>
        rw [hline] at hd
        exact hd.symm
      | some desc =>
        rw [hline] at hd
        exact hd.symm

/-- Where the groups of the expressions take part, the pass comes to its end, and takes the first
format with the leftmost title. -/
theorem extractDescription_taken {oops : Oops} (h : ∀ f ∈ oops.formats, f.Captures) :
    ∃ d, extractDescription mustCompile params output oops = .ok d ∧
      Taken mustCompile params output oops d := by
  obtain ⟨d, hd⟩ := extractDescription_ok mustCompile params output h
  exact ⟨d, hd, taken_of_ok hd⟩

/-- A function whose name ends in `_panic`, and a panic. -/
def panicOutput : Bytes := ascii "skb_panic:\npanic: b\nc\n"

def noParams : StackParams := ⟨[], [], [], []⟩

theorem restOfLine_captures (text : Bytes) : (restOfLine text).Captures := by
  intro s m hm g hg
  obtain ⟨p, -, rfl⟩ := Option.map_eq_some_iff.mp hm
  obtain rfl := List.mem_singleton.mp hg
  rfl

theorem commonOopses_captures : ∀ oops ∈ commonOopses, ∀ f ∈ oops.formats, f.Captures := by
  intro oops hoops f hf
  obtain rfl := List.mem_singleton.mp hoops
  obtain rfl := List.mem_singleton.mp hf
  exact restOfLine_captures _

theorem extractDescription_taken_panic :
    ∃ oops ∈ commonOopses, ∃ d,
      extractDescription literal noParams (panicOutput.drop 11) oops = .ok d ∧
        d.desc = ascii "panic: b" ∧ Taken literal noParams (panicOutput.drop 11) oops d := by
  have hmem := List.mem_singleton_self (commonOopses.head (by decide))
  obtain ⟨d, hd, htaken⟩ := @extractDescription_taken literal noParams (panicOutput.drop 11) _
    (commonOopses_captures _ hmem)
  obtain rfl := Except.ok.inj (hd.symm.trans rfl)
  exact ⟨_, hmem, _, hd, by decide, htaken⟩

/-! ## The title of the first crash -/

/-- `struct Report`, but for what `Symbolize` fills in. -/
structure Report where
  title : Bytes
  type : CrashType
  frame : Bytes
  report : Bytes
  output : Bytes
  startPos : ℕ
  endPos : ℕ
  suppressed : Bool
  corrupted : Bool
  corruptedReason : String

section

variable (mustCompile : Bytes → Regexp) (oopses : List Oops) (params : StackParams)
  (ignores : List Regexp)

def simpleLineParser (output : Bytes) : Except Panic (Option Report) :=
  match findOops oopses ignores output with
  | none => .ok none
  | some (oops, pos, next) =>
    (extractDescription mustCompile params (output.drop pos) oops).map fun d =>
      some
        { title := d.desc
          type := .unknown
          frame := []
          report := output.drop pos
          output := output
          startPos := pos
          endPos := next
          suppressed := false
          corrupted := d.corrupted ≠ ""
          corruptedReason := d.corrupted }

end

section

variable {oopses : List Oops} {ignores : List Regexp}

variable (mustCompile params output ignores) in
theorem simpleLineParser_ok (h : ∀ oops ∈ oopses, ∀ f ∈ oops.formats, f.Captures) :
    ∃ r, simpleLineParser mustCompile oopses params ignores output = .ok r := by
  unfold simpleLineParser
  cases hfind : findOops oopses ignores output with
  | none => exact ⟨none, rfl⟩
  | some found =>
    obtain ⟨oops, pos, next⟩ := found
    have hmem := List.mem_of_find?_eq_some (findOops_eq_some.mp hfind).2.1
    obtain ⟨d, hd⟩ := extractDescription_ok mustCompile params (output.drop pos) (h oops hmem)
    exact ⟨_, by dsimp only; rw [hd]; rfl⟩

theorem simpleLineParser_some {r : Report}
    (h : simpleLineParser mustCompile oopses params ignores output = .ok (some r)) :
    ∃ oops d, findOops oopses ignores output = some (oops, r.startPos, r.endPos) ∧
      extractDescription mustCompile params (output.drop r.startPos) oops = .ok d ∧
      r.title = d.desc ∧ r.report = output.drop r.startPos := by
  unfold simpleLineParser at h
  cases hfind : findOops oopses ignores output with
  | none =>
    rw [hfind] at h
    cases Except.ok.inj h
  | some found =>
    obtain ⟨oops, pos, next⟩ := found
    rw [hfind] at h
    dsimp only at h
    cases hd : extractDescription mustCompile params (output.drop pos) oops with
    | error e =>
      rw [hd] at h
      cases h
    | ok d =>
      rw [hd] at h
      obtain rfl := Option.some.inj (Except.ok.inj h)
      exact ⟨oops, d, rfl, hd, rfl, rfl⟩

theorem simpleLineParser_none
    (h : simpleLineParser mustCompile oopses params ignores output = .ok none) :
    findOops oopses ignores output = none := by
  unfold simpleLineParser at h
  cases hfind : findOops oopses ignores output with
  | none => rfl
  | some found =>
    obtain ⟨oops, pos, next⟩ := found
    rw [hfind] at h
    dsimp only at h
    cases hd : extractDescription mustCompile params (output.drop pos) oops with
    | error e =>
      rw [hd] at h
      cases h
    | ok d =>
      rw [hd] at h
      cases h

/-- From inside a line, the next separator is its end. -/
theorem idxOf_drop {s : Bytes} {i j k : ℕ} (h : IsLine newline s i j) (hi : i ≤ k) (hj : k ≤ j) :
    (s.drop k).idxOf newline = j - k := by
  have hlen := h.stop_le
  have hsplit : slice s k j ++ s.drop j = s.drop k := by
    have htake := List.take_append_drop (j - k) (s.drop k)
    rwa [List.drop_drop, show k + (j - k) = j by omega] at htake
  have hnot : newline ∉ slice s k j := by
    intro hmem
    obtain ⟨n, hn⟩ := List.mem_iff_getElem?.mp hmem
    obtain ⟨hlt, hget⟩ : n < j - k ∧ s[k + n]? = some newline := by
      simpa [slice, List.getElem?_take, List.getElem?_drop] using hn
    exact h.inside (k + n) (by omega) (by omega) hget
  have hzero : (s.drop j).idxOf newline = 0 := by
    rcases h.stop with hstop | hstop
    · simp [hstop]
    · rw [← List.head?_drop] at hstop
      obtain ⟨t, ht⟩ := List.head?_eq_some_iff.mp hstop
      simp [ht]
  have hslice : (slice s k j).length = j - k := by
    rw [slice, List.length_take, List.length_drop]
    omega
  rw [← hsplit, List.idxOf_append_of_notMem hnot, hslice, hzero, Nat.add_zero]

/-- Where no format has a description, the title is the rest of the line. -/
theorem headerLine_eq {s header : Bytes} {i j p : ℕ} (h : IsLine newline s i j)
    (hp : index header (slice s i j) = some p) :
    headerLine (s.drop i) header = some (slice s (i + p) j) := by
  have hlen := h.stop_le
  have hle := h.le
  have hslice : (slice s i j).length = j - i := by
    rw [slice, List.length_take, List.length_drop]
    omega
  have hbound := (index_length hp).2
  have hsplit : slice s i j ++ s.drop j = s.drop i := by
    have htake := List.take_append_drop (j - i) (s.drop i)
    rwa [List.drop_drop, show i + (j - i) = j by omega] at htake
  have hindex := index_append hp (s.drop j)
  rw [hsplit] at hindex
  rw [headerLine, hindex, Option.map_some, List.drop_drop, idxOf_drop h (by omega) (by omega)]
  congr 1
  rw [slice, slice, List.drop_drop]
  congr 1
  omega

theorem slice_ne_nil {s : Bytes} {i j : ℕ} (hlt : i < j) (hj : j ≤ s.length) :
    slice s i j ≠ [] := by
  apply List.ne_nil_of_length_pos
  rw [slice, List.length_take, List.length_drop]
  omega

/-- Some title is the leftmost. -/
theorem exists_leftmost {formats : List OopsFormat}
    (h : ¬∀ f ∈ formats, titleAt output f = none) : ∃ p, Leftmost output formats p := by
  push Not at h
  obtain ⟨f, hf, hne⟩ := h
  obtain ⟨q, hq⟩ := Option.ne_none_iff_exists'.mp hne
  have hex : ∃ p, ∃ f ∈ formats, titleAt output f = some p := ⟨q, f, hf, hq⟩
  classical
  exact ⟨Nat.find hex, Nat.find_spec hex, fun g hg r hr => Nat.find_min' hex ⟨g, hg, hr⟩⟩

theorem description_ne_nil {oops : Oops} {d : Description}
    (h : Taken mustCompile params output oops d)
    (hline : ∀ l, headerLine output oops.header = some l → l ≠ [])
    (hsome : headerLine output oops.header ≠ none) : d.desc ≠ [] := by
  obtain ⟨l, hl⟩ := Option.ne_none_iff_exists'.mp hsome
  have hdefault : (headerLine output oops.header).getD [] ≠ [] := by
    rw [hl]
    exact hline l hl
  by_cases hnone : ∀ f ∈ oops.formats, titleAt output f = none
  · rw [h.unmatched hnone]
    exact hdefault
  · obtain ⟨p, hp⟩ := exists_leftmost hnone
    cases hfind : oops.formats.find? (candidate mustCompile params output p) with
    | none =>
      rw [(h.silent p hp hfind).1]
      exact hdefault
    | some f =>
      obtain ⟨corrupted, hgot, -⟩ := h.first p hp f hfind
      have hcand := List.find?_some hfind
      simp [candidate, hgot] at hcand
      exact hcand.2

/-- What the parser and `containsCrash` say of an output: the report is about the first line
with an oops, and has a title if the headers are not empty. -/
structure Parsed (oopses : List Oops) (ignores : List Regexp) (output : Bytes)
    (r : Option Report) : Prop where
  crash : r.isSome ↔ containsCrash oopses ignores output = true
  report : ∀ rep ∈ r, CrashLine oopses ignores output rep.startPos rep.endPos ∧
    (∀ i j, CrashLine oopses ignores output i j → rep.startPos ≤ i) ∧
    rep.report = output.drop rep.startPos ∧
    ((∀ oops ∈ oopses, oops.header ≠ []) → rep.title ≠ [])

theorem parsed_of_ok {r : Option Report}
    (h : simpleLineParser mustCompile oopses params ignores output = .ok r) :
    Parsed oopses ignores output r := by
  cases r with
  | none =>
    refine ⟨iff_of_false (by simp) fun hcrash => ?_, fun rep hrep => (by cases hrep)⟩
    exact findOops_eq_none.mp (simpleLineParser_none h) (containsCrash_iff.mp hcrash)
  | some rep =>
    obtain ⟨oops, d, hfind, hd, htitle, hreport⟩ := simpleLineParser_some h
    obtain ⟨hline, hoops, hfirst⟩ := findOops_eq_some.mp hfind
    have hmem := List.mem_of_find?_eq_some hoops
    have hmatch := List.find?_some hoops
    have hcrash : CrashLine oopses ignores output rep.startPos rep.endPos :=
      ⟨hline, oops, hmem, hmatch⟩
    refine ⟨iff_of_true rfl (containsCrash_iff.mpr ⟨_, _, hcrash⟩), fun rep' hrep' => ?_⟩
    obtain rfl := Option.some.inj hrep'
    refine ⟨hcrash, hfirst, hreport, fun hheaders => ?_⟩
    have hindex : index oops.header (slice output rep.startPos rep.endPos) ≠ none := by
      intro hnone
      rw [matchOops, if_pos hnone] at hmatch
      cases hmatch
    obtain ⟨p, hp⟩ := Option.ne_none_iff_exists'.mp hindex
    have hbound := (index_length hp).2
    have hheader := List.length_pos_iff.mpr (hheaders oops hmem)
    have hslice : (slice output rep.startPos rep.endPos).length = rep.endPos - rep.startPos := by
      have hlen := hline.stop_le
      rw [slice, List.length_take, List.length_drop]
      omega
    rw [htitle]
    apply description_ne_nil (taken_of_ok hd)
    · intro l hl
      rw [headerLine_eq hline hp] at hl
      obtain rfl := Option.some.inj hl
      exact slice_ne_nil (by omega) hline.stop_le
    · rw [headerLine_eq hline hp]
      simp

/-- Where the groups of the expressions take part, the parser does not panic. -/
theorem simpleLineParser_spec (h : ∀ oops ∈ oopses, ∀ f ∈ oops.formats, f.Captures) :
    ∃ r, simpleLineParser mustCompile oopses params ignores output = .ok r ∧
      Parsed oopses ignores output r := by
  obtain ⟨r, hr⟩ := simpleLineParser_ok mustCompile params output ignores h
  exact ⟨r, hr, parsed_of_ok hr⟩

theorem simpleLineParser_spec_panic :
    ∃ rep, simpleLineParser literal commonOopses noParams [] panicOutput = .ok (some rep) ∧
      rep.startPos = 11 ∧ Parsed commonOopses [] panicOutput (some rep) := by
  obtain ⟨r, hr, hparsed⟩ := @simpleLineParser_spec literal noParams panicOutput commonOopses []
    commonOopses_captures
  obtain rfl := Except.ok.inj (hr.symm.trans rfl)
  exact ⟨_, hr, rfl, hparsed⟩

/-- Once the line of the crash is ended, the report begins there whatever is printed behind it. -/
theorem simpleLineParser_append (h : ∀ oops ∈ oopses, ∀ f ∈ oops.formats, f.Captures)
    {rep : Report}
    (hrep : simpleLineParser mustCompile oopses params ignores output = .ok (some rep))
    (hend : rep.endPos < output.length) (more : Bytes) :
    ∃ rep', simpleLineParser mustCompile oopses params ignores (output ++ more) = .ok (some rep') ∧
      rep'.startPos = rep.startPos ∧ rep'.endPos = rep.endPos ∧
      rep'.report = rep.report ++ more := by
  obtain ⟨oops, d, hfind, -, -, hreport⟩ := simpleLineParser_some hrep
  have hfind' := findOops_append hfind hend more
  obtain ⟨r, hr⟩ := simpleLineParser_ok mustCompile params (output ++ more) ignores h
  have hsome : r.isSome := by
    cases r with
    | some rep' => rfl
    | none => exact absurd (hfind'.symm.trans (simpleLineParser_none hr)) (by simp)
  obtain ⟨rep', rfl⟩ := Option.isSome_iff_exists.mp hsome
  obtain ⟨oops', d', hfind'', -, -, hreport'⟩ := simpleLineParser_some hr
  obtain ⟨rfl, hstart, hstop⟩ : oops = oops' ∧ rep.startPos = rep'.startPos ∧
      rep.endPos = rep'.endPos := by simpa using hfind'.symm.trans hfind''
  refine ⟨rep', hr, hstart.symm, hstop.symm, ?_⟩
  have hle := (findOops_eq_some.mp hfind).1.le
  rw [hreport', ← hstart, hreport, List.drop_append_of_le_length (by omega)]

theorem simpleLineParser_append_panic :
    ∃ rep rep', simpleLineParser literal commonOopses noParams [] panicOutput = .ok (some rep) ∧
      simpleLineParser literal commonOopses noParams [] (panicOutput ++ ascii "panic: d\n") =
        .ok (some rep') ∧ rep'.startPos = rep.startPos := by
  obtain ⟨rep', hrep', hstart, -⟩ := @simpleLineParser_append literal noParams panicOutput
    commonOopses [] commonOopses_captures _ rfl (by decide) (ascii "panic: d\n")
  exact ⟨_, rep', rfl, hrep', hstart⟩

end

/-! ## The reporter -/

def unexpectedKernelReboot : Bytes := ascii "unexpected kernel reboot"
def memoryLeakPrefix : Bytes := ascii "memory leak in "
def dataRacePrefix : Bytes := ascii "KCSAN: data-race"
def gceConsoleHangup : Bytes := ascii "serialport: VM disconnected."

def extractReportType (title : Bytes) : CrashType :=
  if title = unexpectedKernelReboot then .unexpectedReboot
  else if memoryLeakPrefix.isPrefixOf title then .memoryLeak
  else if dataRacePrefix.isPrefixOf title then .dataRace
  else if (ascii "INFO: rcu detected stall").isPrefixOf title ||
      (ascii "INFO: task hung").isPrefixOf title ||
      (ascii "BUG: soft lockup").isPrefixOf title then .hang
  else .unknown

/-- `reporterWrapper`, with the reporter of the system that it wraps, what `replaceTable` does
with the table `dynamicTitleReplacement`, and `reportFrameRe`. -/
structure ReporterWrapper where
  reporter : Bytes → Option Report
  replaceTable : Bytes → Bytes
  frameRe : Regexp
  suppressions : List Regexp

namespace ReporterWrapper

variable (wrap : ReporterWrapper)

def parse (output : Bytes) : Option Report :=
  (wrap.reporter output).map fun rep =>
    let title := sanitizeTitle (wrap.replaceTable rep.title)
    { rep with
      title := title
      suppressed := matchesAny rep.output wrap.suppressions
      corrupted := rep.corrupted || (index gceConsoleHangup rep.output).isSome
      type := extractReportType title
      frame :=
        match wrap.frameRe.submatches title with
        | some (group :: _) => group.getD []
        | _ => rep.frame }

def isSuppressed (output : Bytes) : Bool :=
  matchesAny output wrap.suppressions || (index gceConsoleHangup output).isSome

/-- A report is titled in the normal form and keeps its place. Output that is suppressed gives
reports that are suppressed or corrupted. -/
theorem parse_spec {output : Bytes} {rep : Report} (h : wrap.parse output = some rep) :
    Sanitary rep.title ∧ rep.type = extractReportType rep.title ∧
      (wrap.isSuppressed rep.output = true → rep.suppressed = true ∨ rep.corrupted = true) ∧
      ∃ inner, wrap.reporter output = some inner ∧ rep.startPos = inner.startPos ∧
        rep.endPos = inner.endPos ∧ (inner.corrupted = true → rep.corrupted = true) := by
  obtain ⟨inner, hinner, rfl⟩ := Option.map_eq_some_iff.mp h
  refine ⟨sanitary_sanitizeTitle _, rfl, fun hsup => ?_, inner, hinner, rfl, rfl, fun hc => ?_⟩
  · rcases Bool.or_eq_true_iff.mp hsup with hsup | hhang
    · exact .inl hsup
    · exact .inr (Bool.or_eq_true_iff.mpr (.inr hhang))
  · exact Bool.or_eq_true_iff.mpr (.inl hc)

end ReporterWrapper

end FuzzUSB.CrashReport
