import Mathlib.Tactic.Common

/-!
# Programs that make calls

C code is a tree of calls into code outside it, branching on their answers. The
tree is run on a model of that code, or observed in an environment that answers
each call from the calls before it.
-/

namespace FuzzUSB

universe u

/-- A program that makes calls `c` answered in `R c`. -/
inductive Program {C : Type*} (R : C → Type u) (α : Type u)
  | ret (a : α)
  | call (c : C) (next : R c → Program R α)

namespace Program

variable {C σ : Type*} {R : C → Type u} {α β : Type u}

def bind : Program R α → (α → Program R β) → Program R β
  | ret a, f => f a
  | call c next, f => call c fun r => (next r).bind f

instance : Monad (Program R) where
  pure := ret
  bind := bind

/-- The program that makes one call and returns its answer. -/
def perform (c : C) : Program R (R c) := call c ret

/-- The program that makes calls one after another and looks at no answer. -/
def performAll : List C → Program R PUnit
  | [] => ret ⟨⟩
  | c :: cs => call c fun _ => performAll cs

/-- Run a program on a model of the code it calls. -/
def run (handle : (c : C) → σ → R c × σ) : Program R α → σ → α × σ
  | ret a, s => (a, s)
  | call c next, s => (next (handle c s).1).run handle (handle c s).2

/-- The result of a program and the calls it makes, in order. -/
def observe (env : List C → (c : C) → R c) (p : Program R α) : α × List C :=
  p.run (fun c made => (env made c, made ++ [c])) []

/-- `c` is made on some path of the program. -/
def MayCall (c : C) : Program R α → Prop
  | ret _ => False
  | call c' next => c = c' ∨ ∃ r, MayCall c (next r)

@[simp] theorem pure_eq_ret (a : α) : (pure a : Program R α) = ret a := rfl

@[simp] theorem ret_bind (a : α) (f : α → Program R β) : ret a >>= f = f a := rfl

@[simp] theorem call_bind (c : C) (next : R c → Program R α) (f : α → Program R β) :
    call c next >>= f = call c fun r => next r >>= f := rfl

@[simp] theorem perform_bind (c : C) (f : R c → Program R β) : perform c >>= f = call c f := rfl

section

variable (handle : (c : C) → σ → R c × σ)

@[simp] theorem run_ret (a : α) (s : σ) : (ret a).run handle s = (a, s) := rfl

@[simp] theorem run_call (c : C) (next : R c → Program R α) (s : σ) :
    (call c next).run handle s = (next (handle c s).1).run handle (handle c s).2 := rfl

@[simp] theorem run_perform (c : C) (s : σ) : (perform c).run handle s = handle c s := rfl

@[simp] theorem run_bind (p : Program R α) (f : α → Program R β) (s : σ) :
    (p >>= f).run handle s = (f (p.run handle s).1).run handle (p.run handle s).2 := by
  induction p generalizing s with
  | ret a => rfl
  | call c next ih => exact ih _ _

@[simp] theorem run_performAll_snd (cs : List C) (s : σ) :
    ((performAll cs : Program R PUnit).run handle s).2 =
      cs.foldl (fun s c => (handle c s).2) s := by
  induction cs generalizing s with
  | nil => rfl
  | cons c cs ih => exact ih _

/-- What the calls of a program keep, the program keeps. -/
theorem run_invariant {I : σ → Prop} (p : Program R α)
    (h : ∀ c s, p.MayCall c → I s → I (handle c s).2) {s : σ} (hs : I s) :
    I (p.run handle s).2 := by
  induction p generalizing s with
  | ret a => exact hs
  | call c next ih =>
    exact ih _ (fun c' s' hc => h c' s' (.inr ⟨_, hc⟩)) (h c s (.inl rfl) hs)

/-- The environment that answers as the model does from the state `s` on. -/
def replay (s : σ) (made : List C) (c : C) : R c :=
  (handle c (made.foldl (fun s c => (handle c s).2) s)).1

theorem run_replay (p : Program R α) (s : σ) (made : List C) :
    p.run handle (made.foldl (fun s c => (handle c s).2) s) =
      ((p.run (fun c made => (replay handle s made c, made ++ [c])) made).1,
        (p.run (fun c made => (replay handle s made c, made ++ [c])) made).2.foldl
          (fun s c => (handle c s).2) s) := by
  induction p generalizing made with
  | ret a => rfl
  | call c next ih =>
    have h := ih (replay handle s made c) (made ++ [c])
    simp only [List.foldl_append, List.foldl_cons, List.foldl_nil] at h
    exact h

/-- A run on a model is what is observed in the environment that replays the model. -/
theorem run_eq_observe (p : Program R α) (s : σ) :
    p.run handle s =
      ((p.observe (replay handle s)).1,
        (p.observe (replay handle s)).2.foldl (fun s c => (handle c s).2) s) :=
  run_replay handle p s []

end

/-- The calls made so far stay the first ones. -/
theorem prefix_run (env : List C → (c : C) → R c) (p : Program R α) (made : List C) :
    made <+: (p.run (fun c made => (env made c, made ++ [c])) made).2 := by
  induction p generalizing made with
  | ret a => exact List.prefix_refl _
  | call c next ih => exact (List.prefix_append made [c]).trans (ih _ _)

@[simp] theorem not_mayCall_ret (c : C) (a : α) : ¬(ret a : Program R α).MayCall c := id

@[simp] theorem mayCall_call (c c' : C) (next : R c' → Program R α) :
    (call c' next).MayCall c ↔ c = c' ∨ ∃ r, (next r).MayCall c := Iff.rfl

@[simp] theorem mayCall_perform (c c' : C) :
    (perform c' : Program R (R c')).MayCall c ↔ c = c' := by
  simp [perform]

@[simp] theorem mayCall_performAll [∀ c, Nonempty (R c)] (c : C) (cs : List C) :
    (performAll cs : Program R PUnit).MayCall c ↔ c ∈ cs := by
  induction cs with
  | nil => simp [performAll]
  | cons c' cs ih => simp [performAll, ih]

/-- A call of a sequence is a call of one of its parts. -/
theorem MayCall.of_bind {c : C} {p : Program R α} {f : α → Program R β}
    (h : (p >>= f).MayCall c) : p.MayCall c ∨ ∃ a, (f a).MayCall c := by
  induction p with
  | ret a => exact .inr ⟨a, h⟩
  | call c' next ih =>
    rcases h with rfl | ⟨r, h⟩
    · exact .inl (.inl rfl)
    · exact (ih r h).imp_left fun h => .inr ⟨r, h⟩

/-- Every call of the program satisfies `P`. -/
def AllCalls (P : C → Prop) (p : Program R α) : Prop := ∀ c, p.MayCall c → P c

section

variable {P : C → Prop}

@[simp] theorem allCalls_ret (a : α) : (ret a : Program R α).AllCalls P := fun _ => False.elim

@[simp] theorem allCalls_call (c : C) (next : R c → Program R α) :
    (call c next).AllCalls P ↔ P c ∧ ∀ r, (next r).AllCalls P := by
  simp only [AllCalls, mayCall_call, or_imp, forall_and, forall_eq, forall_exists_index]
  exact and_congr_right fun _ => forall_comm

@[simp] theorem allCalls_ite (b : Prop) [Decidable b] (p q : Program R α) :
    (if b then p else q).AllCalls P ↔ if b then p.AllCalls P else q.AllCalls P := by
  split <;> rfl

theorem AllCalls.mono {Q : C → Prop} {p : Program R α} (hp : p.AllCalls P)
    (hPQ : ∀ c, P c → Q c) : p.AllCalls Q := fun c hc => hPQ c (hp c hc)

theorem AllCalls.bind {p : Program R α} {f : α → Program R β} (hp : p.AllCalls P)
    (hf : ∀ a, (f a).AllCalls P) : (p >>= f).AllCalls P :=
  fun c hc => hc.of_bind.elim (hp c) fun ⟨a, ha⟩ => hf a c ha

end

/-! ## Transcripts -/

/-- The calls on one path of a program with their answers, and the result there. -/
inductive Yields : Program R α → List ((c : C) × R c) → α → Prop
  | ret (a : α) : Yields (ret a) [] a
  | call {c : C} {next : R c → Program R α} (r : R c) {l : List ((c : C) × R c)} {a : α}
      (h : Yields (next r) l a) : Yields (call c next) (⟨c, r⟩ :: l) a

section

variable {l : List ((c : C) × R c)} {a : α} {b : β}

@[simp] theorem yields_ret_iff {a' : α} :
    (ret a : Program R α).Yields l a' ↔ l = [] ∧ a' = a := by
  constructor
  · rintro ⟨⟩
    exact ⟨rfl, rfl⟩
  · rintro ⟨rfl, rfl⟩
    exact .ret a'

theorem yields_call_iff {c : C} {next : R c → Program R α} :
    (call c next).Yields l a ↔ ∃ r l', l = ⟨c, r⟩ :: l' ∧ (next r).Yields l' a := by
  constructor
  · rintro ⟨⟩
    exact ⟨_, _, rfl, by assumption⟩
  · rintro ⟨r, l', rfl, h⟩
    exact .call r h

@[simp] theorem yields_perform_iff {c : C} {r : R c} :
    (perform c).Yields l r ↔ l = [⟨c, r⟩] := by
  rw [perform, yields_call_iff]
  constructor
  · rintro ⟨r', l', rfl, h⟩
    obtain ⟨rfl, rfl⟩ := yields_ret_iff.mp h
    rfl
  · rintro rfl
    exact ⟨r, [], rfl, .ret r⟩

theorem yields_bind_iff {p : Program R α} {f : α → Program R β} :
    (p >>= f).Yields l b ↔ ∃ l₁ l₂ a, l = l₁ ++ l₂ ∧ p.Yields l₁ a ∧ (f a).Yields l₂ b := by
  induction p generalizing l with
  | ret a =>
    constructor
    · exact fun h => ⟨[], l, a, rfl, .ret a, h⟩
    · rintro ⟨l₁, l₂, a', rfl, h₁, h₂⟩
      obtain ⟨rfl, rfl⟩ := yields_ret_iff.mp h₁
      exact h₂
  | call c next ih =>
    rw [call_bind, yields_call_iff]
    constructor
    · rintro ⟨r, l', rfl, h⟩
      obtain ⟨l₁, l₂, a, rfl, h₁, h₂⟩ := (ih r).mp h
      exact ⟨⟨c, r⟩ :: l₁, l₂, a, rfl, .call r h₁, h₂⟩
    · rintro ⟨l₁, l₂, a, rfl, h₁, h₂⟩
      obtain ⟨r, l', rfl, h⟩ := yields_call_iff.mp h₁
      exact ⟨r, l' ++ l₂, rfl, (ih r).mpr ⟨l', l₂, a, rfl, h, h₂⟩⟩

/-- The calls of a transcript are calls of the program. -/
theorem Yields.allCalls {p : Program R α} {P : C → Prop} (h : p.Yields l a)
    (hp : p.AllCalls P) : ∀ e ∈ l, P e.1 := by
  induction h with
  | ret a => simp
  | call r h ih =>
    rw [allCalls_call] at hp
    exact List.forall_mem_cons.mpr ⟨hp.1, ih (hp.2 r)⟩

/-- A run on a model with the answers written down. -/
def record (handle : (c : C) → σ → R c × σ) (c : C) (s : σ × List ((c : C) × R c)) :
    R c × (σ × List ((c : C) × R c)) :=
  ((handle c s.1).1, ((handle c s.1).2, s.2 ++ [⟨c, (handle c s.1).1⟩]))

/-- What is written down is a transcript. -/
theorem yields_record (handle : (c : C) → σ → R c × σ) (p : Program R α)
    (s : σ) (l : List ((c : C) × R c)) :
    ∃ l', (p.run (record handle) (s, l)).2.2 = l ++ l' ∧
      p.Yields l' (p.run (record handle) (s, l)).1 := by
  induction p generalizing s l with
  | ret a => exact ⟨[], (List.append_nil l).symm, .ret a⟩
  | call c next ih =>
    obtain ⟨l', heq, h⟩ := ih (handle c s).1 (handle c s).2 (l ++ [⟨c, (handle c s).1⟩])
    exact ⟨⟨c, (handle c s).1⟩ :: l', by simpa [record] using heq, .call _ h⟩

end

/-! ## Programs that may stop -/

/-- The program with its calls answered by other code. -/
def interpret {m : Type u → Type*} [Monad m] (f : (c : C) → m (R c)) : Program R α → m α
  | ret a => pure a
  | call c next => f c >>= fun r => (next r).interpret f

section

variable {C' : Type*} {R' : C' → Type u} {x : OptionT (Program R) α}
  {f : α → OptionT (Program R) β} {l : List ((c : C) × R c)}

@[simp] theorem yields_run_pure_iff {a : α} {r : Option α} :
    (pure a : OptionT (Program R) α).run.Yields l r ↔ l = [] ∧ r = some a := yields_ret_iff

@[simp] theorem yields_run_failure_iff {r : Option α} :
    (failure : OptionT (Program R) α).run.Yields l r ↔ l = [] ∧ r = none := yields_ret_iff

@[simp] theorem yields_run_monadLift_iff {c : C} {r : Option (R c)} :
    (monadLift (perform c) : OptionT (Program R) (R c)).run.Yields l r ↔
      ∃ a, r = some a ∧ l = [⟨c, a⟩] := by
  change (call c fun a => ret (some a)).Yields l r ↔ _
  rw [yields_call_iff]
  constructor
  · rintro ⟨a, l', rfl, h⟩
    obtain ⟨rfl, rfl⟩ := yields_ret_iff.mp h
    exact ⟨a, rfl, rfl⟩
  · rintro ⟨a, rfl, rfl⟩
    exact ⟨a, [], rfl, .ret _⟩

@[simp] theorem yields_run_getM_iff {o : Option α} {r : Option α} :
    (o.getM : OptionT (Program R) α).run.Yields l r ↔ l = [] ∧ r = o := by
  cases o with
  | none => exact yields_run_failure_iff
  | some a => exact yields_run_pure_iff

/-- A sequence goes through, or its first part stops. -/
theorem yields_run_bind_iff {r : Option β} :
    (x >>= f).run.Yields l r ↔
      (∃ l₁ l₂ a, l = l₁ ++ l₂ ∧ x.run.Yields l₁ (some a) ∧ (f a).run.Yields l₂ r) ∨
        r = none ∧ x.run.Yields l none := by
  rw [OptionT.run_bind, Option.elimM, yields_bind_iff]
  constructor
  · rintro ⟨l₁, l₂, o, rfl, h₁, h₂⟩
    cases o with
    | none =>
      obtain ⟨rfl, rfl⟩ := yields_ret_iff.mp h₂
      exact .inr ⟨rfl, by rwa [List.append_nil]⟩
    | some a => exact .inl ⟨l₁, l₂, a, rfl, h₁, h₂⟩
  · rintro (⟨l₁, l₂, a, rfl, h₁, h₂⟩ | ⟨rfl, h⟩)
    · exact ⟨l₁, l₂, some a, rfl, h₁, h₂⟩
    · exact ⟨l, [], none, (List.append_nil l).symm, h, .ret none⟩

theorem yields_run_bind_some_iff {b : β} :
    (x >>= f).run.Yields l (some b) ↔
      ∃ l₁ l₂ a, l = l₁ ++ l₂ ∧ x.run.Yields l₁ (some a) ∧ (f a).run.Yields l₂ (some b) := by
  rw [yields_run_bind_iff]
  simp

theorem yields_run_getM_bind_iff {o : Option α} {b : β} :
    (o.getM >>= f).run.Yields l (some b) ↔ ∃ a, o = some a ∧ (f a).run.Yields l (some b) := by
  rw [yields_run_bind_some_iff]
  constructor
  · rintro ⟨l₁, l₂, a, rfl, h₁, h₂⟩
    obtain ⟨rfl, heq⟩ := yields_run_getM_iff.mp h₁
    exact ⟨a, heq.symm, h₂⟩
  · rintro ⟨a, rfl, h⟩
    exact ⟨[], l, a, rfl, yields_run_getM_iff.mpr ⟨rfl, rfl⟩, h⟩

theorem Yields.of_monadLift_bind {c : C} {f : R c → OptionT (Program R) β} {r : Option β}
    (h : (monadLift (perform c) >>= f).run.Yields l r) :
    ∃ a l', l = ⟨c, a⟩ :: l' ∧ (f a).run.Yields l' r := by
  rcases yields_run_bind_iff.mp h with ⟨l₁, l₂, a, rfl, h₁, h₂⟩ | ⟨-, h₁⟩
  · obtain ⟨a', heq, rfl⟩ := yields_run_monadLift_iff.mp h₁
    obtain rfl := Option.some.inj heq
    exact ⟨a, l₂, rfl, h₂⟩
  · exact absurd (yields_run_monadLift_iff.mp h₁) (by simp)

@[simp] theorem allCalls_run_pure {P : C → Prop} (a : α) :
    (pure a : OptionT (Program R) α).run.AllCalls P := allCalls_ret _

@[simp] theorem allCalls_run_failure {P : C → Prop} :
    (failure : OptionT (Program R) α).run.AllCalls P := allCalls_ret _

@[simp] theorem allCalls_run_getM {P : C → Prop} (o : Option α) :
    (o.getM : OptionT (Program R) α).run.AllCalls P := by
  cases o with
  | none => exact allCalls_run_failure
  | some a => exact allCalls_run_pure a

@[simp] theorem allCalls_run_monadLift {P : C → Prop} {c : C} :
    (monadLift (perform c) : OptionT (Program R) (R c)).run.AllCalls P ↔ P c := by
  change (call c fun a => ret (some a)).AllCalls P ↔ _
  simp

theorem allCalls_run_bind {P : C → Prop} (hx : x.run.AllCalls P)
    (hf : ∀ a, (f a).run.AllCalls P) : (x >>= f).run.AllCalls P := by
  rw [OptionT.run_bind, Option.elimM]
  refine hx.bind fun o => ?_
  cases o with
  | none => exact allCalls_ret none
  | some a => exact hf a

theorem allCalls_run_interpret {P : C' → Prop} {g : (c : C) → OptionT (Program R') (R c)}
    (hg : ∀ c, (g c).run.AllCalls P) (p : Program R α) : (p.interpret g).run.AllCalls P := by
  induction p with
  | ret a => exact allCalls_ret (some a)
  | call c next ih => exact allCalls_run_bind (hg c) ih

/-- A call that the first part does not make is made in the second part. -/
theorem Yields.mem_second {P : C → Prop} {r : Option β} {e : (c : C) × R c}
    (h : (x >>= f).run.Yields l r) (hx : x.run.AllCalls P) (hmem : e ∈ l) (he : ¬P e.1) :
    ∃ l₁ l₂ a, l = l₁ ++ l₂ ∧ x.run.Yields l₁ (some a) ∧ (f a).run.Yields l₂ r ∧ e ∈ l₂ := by
  rcases yields_run_bind_iff.mp h with ⟨l₁, l₂, a, rfl, h₁, h₂⟩ | ⟨-, h⟩
  · refine ⟨l₁, l₂, a, rfl, h₁, h₂, (List.mem_append.mp hmem).resolve_left fun hmem₁ => ?_⟩
    exact he (h₁.allCalls hx e hmem₁)
  · exact absurd (h.allCalls hx e hmem) he

/-- An interpreted program goes along one of its paths, and each answer there is what the
code for the call returned at some time. -/
theorem Yields.of_interpret {g : (c : C) → OptionT (Program R') (R c)} {p : Program R α}
    {l : List ((c : C') × R' c)} {a : α} (h : (p.interpret g).run.Yields l (some a)) :
    ∃ l', p.Yields l' a ∧ ∀ e ∈ l', ∃ l₁, l₁ <:+: l ∧ (g e.1).run.Yields l₁ (some e.2) := by
  induction p generalizing l with
  | ret a' =>
    obtain ⟨rfl, ha⟩ := yields_run_pure_iff.mp h
    obtain rfl := Option.some.inj ha
    exact ⟨[], .ret a, by simp⟩
  | call c next ih =>
    obtain ⟨l₁, l₂, r, rfl, h₁, h₂⟩ := yields_run_bind_some_iff.mp h
    obtain ⟨l', hl', hmem⟩ := ih r h₂
    refine ⟨⟨c, r⟩ :: l', .call r hl', List.forall_mem_cons.mpr ⟨?_, fun e he => ?_⟩⟩
    · exact ⟨l₁, (List.prefix_append l₁ l₂).isInfix, h₁⟩
    · obtain ⟨l₃, hinfix, h₃⟩ := hmem e he
      exact ⟨l₃, hinfix.trans (List.suffix_append l₁ l₂).isInfix, h₃⟩

end

end Program

end FuzzUSB
