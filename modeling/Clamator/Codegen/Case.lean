import Clamator.Protocol.Names

/-!
# Case conversions (`codegen/src/case.ts`)

A global replacement goes through the text from left to right and never reads a
character twice. The three replacements of `camelToSnake` are functions on lists
of characters; what they compute together is told by how many capitals stand
directly before a capital.
-/

namespace Clamator.Codegen
open Clamator.Protocol

/-! ### Characters -/

/- A check of the listed characters only. -/
theorem forall_of_all (l : List Char) (p : Char → Prop) [DecidablePred p]
    (h : l.all (fun c => decide (p c))=true) (c : Char) (hc : c∈l) : p c :=
  of_decide_eq_true (List.all_eq_true.mp h c hc)

def capitals : List Char := "ABCDEFGHIJKLMNOPQRSTUVWXYZ".toList

/- The letters are twenty-six characters in a row. -/
theorem mem_of_toNat (l : List Char) (first : ℕ) (hall : ∀ n∈List.range' first 26, Char.ofNat n∈l)
    (c : Char) (h : first ≤ c.toNat ∧ c.toNat < first+26) : c∈l := by
  have hmem := hall c.toNat (List.mem_range'_1.mpr h)
  rwa [Char.ofNat_toNat] at hmem

theorem upper_mem (c : Char) (hc : upper c=true) : c∈capitals := by
  have hr : 65 ≤ c.toNat ∧ c.toNat ≤ 90 := by
    simp only [upper,Bool.and_eq_true,decide_eq_true_eq,Char.le_def,UInt32.le_iff_toNat_le] at hc
    exact hc
  exact mem_of_toNat capitals 65 (by decide) c ⟨hr.1,by omega⟩

theorem lower_mem (c : Char) (hc : lower c=true) : c∈capitals.map Char.toLower := by
  have hr : 97 ≤ c.toNat ∧ c.toNat ≤ 122 := by
    simp only [lower,Bool.and_eq_true,decide_eq_true_eq,Char.le_def,UInt32.le_iff_toNat_le] at hc
    exact hc
  exact mem_of_toNat _ 97 (by decide) c ⟨hr.1,by omega⟩

theorem upper_toLower (c : Char) (hc : upper c=true) :
    lower c.toLower=true ∧ c.toLower.toUpper=c ∧ c.toLower≠c ∧ lower c=false ∧ digit c=false ∧ c ≠ '_' := by
  exact forall_of_all capitals (fun c => lower c.toLower=true ∧ c.toLower.toUpper=c ∧ c.toLower≠c ∧
    lower c=false ∧ digit c=false ∧ c ≠ '_') (by decide) c (upper_mem c hc)

theorem lower_toUpper (c : Char) (hc : lower c=true) :
    upper c.toUpper=true ∧ c.toUpper.toLower=c ∧ c ≠ '-' := by
  exact forall_of_all _ (fun c => upper c.toUpper=true ∧ c.toUpper.toLower=c ∧ c ≠ '-') (by decide) c
    (lower_mem c hc)

theorem toLower_of_not_upper (c : Char) (hc : upper c=false) : c.toLower=c := by
  unfold Char.toLower
  rw [dif_neg]
  rintro ⟨h1,h2⟩
  have hu : upper c=true := by
    simp only [upper,Bool.and_eq_true,decide_eq_true_eq]
    exact ⟨h1,h2⟩
  rw [hu] at hc
  cases hc

theorem toUpper_of_not_lower (c : Char) (hc : lower c=false) : c.toUpper=c := by
  unfold Char.toUpper
  rw [dif_neg]
  rintro ⟨h1,h2⟩
  have hl : lower c=true := by
    simp only [lower,Bool.and_eq_true,decide_eq_true_eq]
    exact ⟨h1,h2⟩
  rw [hl] at hc
  cases hc

/-! ### The conversions -/

def lowerOrDigit (c : Char) : Bool := lower c || digit c

/- `s.replace(/([first])([second])/g, '$1_$2')` -/
def markPairs (first second : Char → Bool) : List Char → List Char
  | a::b::s =>
    if first a && second b then a:: '_'::b::markPairs first second s else a::markPairs first second (b::s)
  | s => s

/- `s.replace(/([A-Z])([A-Z][a-z])/g, '$1_$2')` -/
def markLast : List Char → List Char
  | a::b::c::s =>
    if upper a && upper b && lower c then a:: '_'::b::c::markLast s else a::markLast (b::c::s)
  | s => s

/-- On a name, whose characters are ASCII, `toLowerCase` is `Char.toLower` on each. -/
def camelToSnake (s : List Char) : List Char :=
  (markPairs upper upper (markLast (markPairs lowerOrDigit upper s))).map Char.toLower

/- `s.replace(/_([a-z0-9])/g, (_, c) => c.toUpperCase())` -/
def snakeToCamel : List Char → List Char
  | a::b::s => if a = '_' ∧ lowerOrDigit b then b.toUpper::snakeToCamel s else a::snakeToCamel (b::s)
  | s => s

def upperFirst : List Char → List Char
  | [] => []
  | c::s => c.toUpper::s

/- `s.split('-')`, each part with `upperFirst`, joined. -/
def kebabAndCamelToPascal (s : List Char) : List Char := (s.splitOn '-').flatMap upperFirst

example : camelToSnake "aBC".toList="a_b_c".toList := by decide
example : camelToSnake "aBCD".toList="a_b_cd".toList ∧ camelToSnake "aBCd".toList="a_b_cd".toList := by
  decide

/-! ### What the replacements mark -/

def nextIs (p : Char → Bool) : List Char → Bool
  | [] => false
  | c::_ => p c

/-- Whether a capital behind `k` capitals and before `s` gets no underscore. -/
def hidden (k : ℕ) (s : List Char) : Bool := decide (2 ≤ k) && k%2 == 0 && !nextIs lower s

/-- Underscores before the capitals of a text that `k` capitals precede. -/
def marked : ℕ → List Char → List Char
  | _,[] => []
  | k,c::s =>
    if upper c then
      if hidden k s then c::marked (k+1) s else '_'::c::marked (k+1) s
    else c::marked 0 s

theorem hidden_of_odd (k : ℕ) (s : List Char) (h : k%2=1) : hidden k s=false := by
  simp [hidden,h]

theorem hidden_of_next (k : ℕ) (s : List Char) (h : nextIs lower s=true) : hidden k s=false := by
  simp [hidden,h]

theorem hidden_zero (s : List Char) : hidden 0 s=false := rfl

theorem hidden_of_even (k : ℕ) (s : List Char) (hk : k%2=0) (h : nextIs lower s=false) :
    hidden (k+2) s=true := by
  simp only [hidden,h,Bool.not_false,Bool.and_true,Bool.and_eq_true,decide_eq_true_eq,beq_iff_eq]
  omega

theorem marked_cons_of_not_upper (k : ℕ) (c : Char) (s : List Char) (h : upper c=false) :
    marked k (c::s)=c::marked 0 s := by
  simp [marked,h]

theorem marked_of_next (k j : ℕ) (s : List Char) (h : nextIs upper s=false) :
    marked k s=marked j s := by
  cases s with
  | nil => rfl
  | cons c s =>
    have hc : upper c=false := h
    rw [marked_cons_of_not_upper k c s hc,marked_cons_of_not_upper j c s hc]

theorem not_upper_of_lower (c : Char) (h : lower c=true) : upper c=false := by
  cases hu : upper c with
  | false => rfl
  | true =>
    have := (upper_toLower c hu).2.2.2.1
    rw [h] at this
    cases this

theorem not_lowerOrDigit_of_upper (c : Char) (h : upper c=true) : lowerOrDigit c=false := by
  obtain ⟨_,_,_,hl,hd,_⟩ := upper_toLower c h
  simp only [lowerOrDigit,hl,hd,Bool.or_false]

theorem markPairs_cons_of_not (first second : Char → Bool) (a : Char) (s : List Char)
    (h : first a=false ∨ nextIs second s=false) :
    markPairs first second (a::s)=a::markPairs first second s := by
  cases s with
  | nil => simp [markPairs]
  | cons b s =>
    have hf : (first a && second b)=false := by
      rcases h with h | h
      · simp [h]
      · have hb : second b=false := h
        simp [hb]
    rw [markPairs,hf]
    rfl

theorem markPairs_cons_of_pair (first second : Char → Bool) (a b : Char) (s : List Char)
    (ha : first a=true) (hb : second b=true) :
    markPairs first second (a::b::s)=a:: '_'::b::markPairs first second s := by
  simp [markPairs,ha,hb]

/- Nothing that a pair begins with ends one, so every pair is found. -/
theorem words_cons (a : Char) (s : List Char) : markPairs lowerOrDigit upper (a::s)=
    a::if lowerOrDigit a && nextIs upper s then '_'::markPairs lowerOrDigit upper s
      else markPairs lowerOrDigit upper s := by
  cases s with
  | nil => simp [markPairs,nextIs]
  | cons b s =>
    by_cases h : lowerOrDigit a=true ∧ upper b=true
    · obtain ⟨ha,hb⟩ := h
      rw [markPairs_cons_of_pair _ _ a b s ha hb,
        markPairs_cons_of_not lowerOrDigit upper b s (Or.inl (not_lowerOrDigit_of_upper b hb))]
      simp [nextIs,ha,hb]
    · have hf : (lowerOrDigit a && upper b)=false := by simpa using h
      have hor : lowerOrDigit a=false ∨ nextIs upper (b::s)=false := Bool.and_eq_false_iff.mp hf
      rw [markPairs_cons_of_not _ _ a (b::s) hor]
      simp [nextIs,hf]

theorem markLast_cons (a : Char) (s : List Char) : markLast (a::s)=
    a::if upper a && nextIs upper s && nextIs lower s.tail then '_'::markLast s else markLast s := by
  have hskip : ∀ a s, (upper a && nextIs upper s && nextIs lower s.tail)=false →
      markLast (a::s)=a::markLast s := by
    intro a s h
    cases s with
    | nil => rfl
    | cons b s => cases s with
      | nil => rfl
      | cons c s =>
        have hf : (upper a && upper b && lower c)=false := h
        rw [markLast,hf]
        rfl
  by_cases h : (upper a && nextIs upper s && nextIs lower s.tail)=true
  · rw [if_pos h]
    cases s with
    | nil => simp [nextIs] at h
    | cons b s => cases s with
      | nil => simp [nextIs] at h
      | cons c s =>
        have ht : (upper a && upper b && lower c)=true := h
        have hc : upper c=false := not_upper_of_lower c (by simp_all)
        rw [hskip b (c::s) (by simp [nextIs,hc]),hskip c s (by simp [hc]),markLast,if_pos ht]
  · rw [if_neg h]
    exact hskip a s (by simpa using h)

/- The text after the first two replacements. -/
def markWords (s : List Char) : List Char := markLast (markPairs lowerOrDigit upper s)

def boundary (a : Char) (s : List Char) : Bool :=
  lowerOrDigit a && nextIs upper s || upper a && nextIs upper s && nextIs lower s.tail

theorem nextIs_words (p : Char → Bool) (s : List Char) :
    nextIs p (markPairs lowerOrDigit upper s)=nextIs p s := by
  cases s with
  | nil => rfl
  | cons a s =>
    rw [words_cons]
    rfl

theorem boundary_nil (a : Char) : boundary a []=false := by simp [boundary,nextIs]

theorem markWords_boundary (a : Char) (s : List Char) :
    markWords (a::s)=a::if boundary a s then '_'::markWords s else markWords s := by
  unfold markWords boundary
  rw [words_cons]
  by_cases h : (lowerOrDigit a && nextIs upper s)=true
  · have hu : ∀ l, markLast ('_'::l) = '_'::markLast l := fun l => markLast_cons '_' l
    rw [if_pos h,h,markLast_cons,hu]
    have hn : nextIs upper ('_'::markPairs lowerOrDigit upper s)=false := rfl
    simp [hn]
  · have hf : (lowerOrDigit a && nextIs upper s)=false := by simpa using h
    rw [if_neg h,markLast_cons,hf,nextIs_words,Bool.false_or]
    -- behind a capital the first replacement puts nothing
    have htail : (nextIs upper s && nextIs lower (markPairs lowerOrDigit upper s).tail)=
        (nextIs upper s && nextIs lower s.tail) := by
      cases s with
      | nil => rfl
      | cons b s =>
        rw [words_cons]
        cases hb : upper b with
        | false => simp [nextIs,hb]
        | true =>
          rw [not_lowerOrDigit_of_upper b hb]
          simp only [Bool.false_and,Bool.false_eq_true,if_false,List.tail_cons,nextIs_words]
    rw [Bool.and_assoc,htail,Bool.and_assoc]

theorem nextIs_markWords (p : Char → Bool) (s : List Char) : nextIs p (markWords s)=nextIs p s := by
  cases s with
  | nil => rfl
  | cons a s =>
    rw [markWords_boundary]
    rfl

/- The third replacement behind a capital that its pair has used up, or that ends a run. -/
theorem markPairs_between (b : Char) (t : List Char) (k : ℕ) (hk : k%2=0) (hb : upper b=true)
    (hl : nextIs lower t=false)
    (ih : ∀ c t' j, t=c::t' → (upper c=true → j%2=0) →
      markPairs upper upper (markWords (c::t'))=c::marked (if upper c then j+1 else 0) t') :
    markPairs upper upper (if boundary b t then '_'::markWords t else markWords t)=
      marked (k+2) t := by
  cases t with
  | nil =>
    rw [boundary_nil]
    rfl
  | cons c t =>
    cases hc : upper c with
    | false =>
      have hbound : boundary b (c::t)=false := by
        simp [boundary,not_lowerOrDigit_of_upper b hb,nextIs,hc]
      rw [hbound,if_neg Bool.false_ne_true,ih c t 0 rfl (fun _ => rfl),
        marked_cons_of_not_upper (k+2) c t hc,hc]
      rfl
    | true =>
      have hbound : boundary b (c::t)=nextIs lower t := by
        simp [boundary,not_lowerOrDigit_of_upper b hb,hb,nextIs,hc]
      have hrec := ih c t (k+2) rfl (fun _ => by omega)
      rw [hc] at hrec
      rw [hbound]
      cases hn : nextIs lower t with
      | true =>
        rw [if_pos rfl,markPairs_cons_of_not upper upper '_' _ (Or.inl rfl),hrec]
        simp [marked,hc,hidden_of_next (k+2) t hn]
      | false =>
        rw [if_neg Bool.false_ne_true,hrec]
        simp [marked,hc,hidden_of_even k t hk hn]

/- The third replacement has nothing to do at a small letter or a digit. -/
theorem markPairs_behind_small (a : Char) (t : List Char) (ha : upper a=false)
    (hld : lowerOrDigit a=true)
    (ih : ∀ b t', t=b::t' → markPairs upper upper (markWords (b::t'))=
      b::marked (if upper b then 1 else 0) t') :
    markPairs upper upper (markWords (a::t))=a::marked 0 t := by
  rw [markWords_boundary,markPairs_cons_of_not upper upper a _ (Or.inl ha)]
  cases t with
  | nil =>
    rw [boundary_nil]
    rfl
  | cons b t =>
    have hb := ih b t rfl
    have hbound : boundary a (b::t)=upper b := by simp [boundary,hld,ha,nextIs]
    rw [hbound]
    cases hu : upper b with
    | true =>
      rw [hu] at hb
      rw [if_pos rfl,markPairs_cons_of_not upper upper '_' _ (Or.inl rfl),hb]
      simp [marked,hu,hidden_zero]
    | false =>
      rw [hu] at hb
      rw [if_neg Bool.false_ne_true,hb]
      simp [marked,hu]

theorem markPairs_behind_capital (a : Char) (t : List Char) (k : ℕ) (ha : upper a=true) (hk : k%2=0)
    (ih : ∀ b t' j, b::t' <:+ t → (upper b=true → j%2=0) →
      markPairs upper upper (markWords (b::t'))=b::marked (if upper b then j+1 else 0) t') :
    markPairs upper upper (markWords (a::t))=a::marked (k+1) t := by
  have hna := not_lowerOrDigit_of_upper a ha
  rw [markWords_boundary]
  cases t with
  | nil =>
    rw [boundary_nil]
    rfl
  | cons b t =>
    have hb := ih b t 0 List.suffix_rfl (fun _ => rfl)
    cases hu : upper b with
    | false =>
      -- a run of one capital
      have hbound : boundary a (b::t)=false := by simp [boundary,hna,nextIs,hu]
      rw [hu] at hb
      rw [hbound,if_neg Bool.false_ne_true,
        markPairs_cons_of_not upper upper a _ (Or.inr (by rw [nextIs_markWords]; exact hu)),hb]
      simp [marked,hu]
    | true =>
      have hbound : boundary a (b::t)=nextIs lower t := by simp [boundary,hna,ha,nextIs,hu]
      have hodd : hidden (k+1) t=false := hidden_of_odd (k+1) t (by omega)
      rw [hbound]
      cases hl : nextIs lower t with
      | true =>
        -- the second replacement has marked the last capital of the run
        have hnu : nextIs upper t=false := by
          cases t with
          | nil => rfl
          | cons c t => exact not_upper_of_lower c hl
        rw [hu] at hb
        rw [if_pos rfl,markPairs_cons_of_not upper upper a _ (Or.inr rfl),
          markPairs_cons_of_not upper upper '_' _ (Or.inl rfl),hb]
        simp only [marked,hu,hodd,if_true,Bool.false_eq_true,if_false]
        rw [marked_of_next (0+1) (k+1+1) t hnu]
      | false =>
        rw [if_neg Bool.false_ne_true,markWords_boundary,
          markPairs_cons_of_pair upper upper a b _ ha hu,
          markPairs_between b t k hk hu hl fun c t' j ht hj => ih c t' j (ht ▸ List.suffix_cons b (c::t')) hj]
        simp [marked,hu,hodd]

/-- The third replacement leaves the capitals that an even number of them stands before, from
the third of a run on, if no lower-case letter follows. -/
theorem markPairs_markWords (t : List Char) (a : Char) (k : ℕ) (h : ∀ c∈a::t, methodTail c=true)
    (hk : upper a=true → k%2=0) : markPairs upper upper (markWords (a::t))=
      a::marked (if upper a then k+1 else 0) t := by
  induction hn : t.length using Nat.strongRecOn generalizing t a k with
  | _ n ih =>
    have hrec : ∀ b t' j, b::t' <:+ t → (upper b=true → j%2=0) →
        markPairs upper upper (markWords (b::t'))=b::marked (if upper b then j+1 else 0) t' := by
      intro b t' j hs hj
      have hlt : t'.length < n := by
        have := hs.length_le
        rw [List.length_cons,hn] at this
        exact this
      exact ih t'.length hlt t' b j (fun c hc => h c (List.mem_cons_of_mem _ (hs.subset hc))) hj rfl
    cases ha : upper a with
    | false =>
      have hld : lowerOrDigit a=true := by
        have := h a List.mem_cons_self
        simpa [methodTail,ha,lowerOrDigit] using this
      exact markPairs_behind_small a t ha hld fun b t' ht =>
        hrec b t' 0 (ht ▸ List.suffix_rfl) (fun _ => rfl)
    | true => exact markPairs_behind_capital a t k ha (hk ha) hrec

theorem methodRe_tail (n : List Char) (h : methodRe n=true) : ∀ c∈n, methodTail c=true :=
  spells_all lower methodTail methodTail
    (fun c hc => by simp only [methodTail,hc,Bool.true_or]) (fun _ hc => hc) n h

theorem camelToSnake_name (n : List Char) (h : methodRe n=true) :
    camelToSnake n=(marked 0 n).map Char.toLower := by
  have hall := methodRe_tail n h
  cases n with
  | nil => rfl
  | cons a t =>
    have ha : upper a=false := by
      refine not_upper_of_lower a ?_
      simp only [methodRe,spells,Bool.and_eq_true] at h
      exact h.1
    have hm := markPairs_markWords t a 0 hall (fun _ => rfl)
    rw [ha] at hm
    rw [marked_cons_of_not_upper 0 a t ha]
    exact congrArg (List.map Char.toLower) hm

/-! ### The way back -/

/-- The text with the capitals in lower case that get no underscore. -/
def soften : ℕ → List Char → List Char
  | _,[] => []
  | k,c::s => if upper c then (if hidden k s then c.toLower else c)::soften (k+1) s else c::soften 0 s

theorem snakeToCamel_cons_of_ne (a : Char) (s : List Char) (h : a ≠ '_') :
    snakeToCamel (a::s)=a::snakeToCamel s := by
  cases s with
  | nil => rfl
  | cons b s =>
    rw [snakeToCamel,if_neg]
    exact fun hc => h hc.1

theorem snakeToCamel_marked (t : List Char) (k : ℕ) (h : ∀ c∈t, methodTail c=true) :
    snakeToCamel ((marked k t).map Char.toLower)=soften k t := by
  induction t generalizing k with
  | nil => rfl
  | cons c t ih =>
    have ht := fun k => ih k fun d hd => h d (List.mem_cons_of_mem _ hd)
    cases hu : upper c with
    | true =>
      obtain ⟨hl,hback,_⟩ := upper_toLower c hu
      cases hh : hidden k t with
      | true =>
        simp only [marked,soften,hu,hh,if_true,List.map_cons]
        rw [snakeToCamel_cons_of_ne _ _ (ne_of_class lower _ '_' (by decide) hl),ht (k+1)]
      | false =>
        have hd : lowerOrDigit c.toLower=true := by simp [lowerOrDigit,hl]
        have hus : '_'.toLower = '_' := by decide
        simp only [marked,soften,hu,hh,if_true,Bool.false_eq_true,if_false,List.map_cons,hus]
        rw [snakeToCamel,if_pos ⟨rfl,hd⟩,hback,ht (k+1)]
    | false =>
      have hc := ne_of_class methodTail c '_' (by decide) (h c List.mem_cons_self)
      simp only [marked,soften,hu,Bool.false_eq_true,if_false,List.map_cons,toLower_of_not_upper c hu]
      rw [snakeToCamel_cons_of_ne c _ hc,ht 0]

/-- An underscore and a lower-case letter for each capital. -/
def underscored (c : Char) : List Char := if upper c then ['_',c.toLower] else [c]

theorem map_marked (t : List Char) (k : ℕ) :
    (marked k t).map Char.toLower=(soften k t).flatMap underscored := by
  induction t generalizing k with
  | nil => rfl
  | cons c t ih =>
    cases hu : upper c with
    | true =>
      cases hh : hidden k t with
      | true =>
        have hl := not_upper_of_lower _ (upper_toLower c hu).1
        simp [marked,soften,hu,hh,ih,underscored,hl]
      | false =>
        have hus : '_'.toLower = '_' := by decide
        simp [marked,soften,hu,hh,ih,underscored,hus]
    | false => simp [marked,soften,hu,ih,underscored,toLower_of_not_upper c hu]

section
variable {n m : List Char}

theorem snakeToCamel_camelToSnake (h : methodRe n=true) : snakeToCamel (camelToSnake n)=soften 0 n := by
  rw [camelToSnake_name n h,snakeToCamel_marked n 0 (methodRe_tail n h)]

theorem camelToSnake_eq_iff (hn : methodRe n=true) (hm : methodRe m=true) :
    camelToSnake n=camelToSnake m ↔ soften 0 n=soften 0 m := by
  constructor
  · intro h
    rw [← snakeToCamel_camelToSnake hn,← snakeToCamel_camelToSnake hm,h]
  · intro h
    rw [camelToSnake_name n hn,camelToSnake_name m hm,map_marked,map_marked,h]

end

/-! ### Names that come back -/

/-- Three capitals in a row with anything but a lower-case letter behind them. -/
def Loses (n : List Char) : Prop := ∃ u a b c v, n=u++a::b::c::v ∧
  (upper a=true ∧ upper b=true ∧ upper c=true) ∧ nextIs lower v=false

/- How many capitals stand at the end of `u`, if `k` stand before it. -/
def run : ℕ → List Char → ℕ
  | k,[] => k
  | k,c::u => if upper c then run (k+1) u else run 0 u

theorem run_concat (u : List Char) (c : Char) (k : ℕ) :
    run k (u++[c])=if upper c then run k u+1 else 0 := by
  induction u generalizing k with
  | nil => rfl
  | cons d u ih =>
    simp only [List.cons_append,run]
    split
    · exact ih (k+1)
    · exact ih 0

/- Behind `u` the text is softened as behind the capitals at its end. -/
theorem drop_soften (u t : List Char) (k : ℕ) :
    (soften k (u++t)).drop u.length=soften (run k u) t := by
  induction u generalizing k with
  | nil => rfl
  | cons c u ih =>
    simp only [List.cons_append,soften,run,List.length_cons]
    split
    · exact ih (k+1)
    · exact ih 0

theorem two_capitals (u : List Char) (h : 2 ≤ run 0 u) :
    ∃ w a b, u=w++[a,b] ∧ upper a=true ∧ upper b=true := by
  rcases List.eq_nil_or_concat u with rfl | ⟨u,b,rfl⟩
  · exact absurd h (by decide)
  · rw [List.concat_eq_append,run_concat] at h
    split at h
    · rename_i hb
      rcases List.eq_nil_or_concat u with rfl | ⟨w,a,rfl⟩
      · exact absurd h (by decide)
      · rw [List.concat_eq_append,run_concat] at h
        split at h
        · rename_i ha
          exact ⟨w,a,b,by simp,ha,hb⟩
        · omega
    · omega

theorem loses_of_soften_ne (t u : List Char) (h : soften (run 0 u) t≠t) : Loses (u++t) := by
  induction t generalizing u with
  | nil => exact absurd rfl h
  | cons c t ih =>
    have hstep : soften (run 0 (u++[c])) t≠t → Loses (u++c::t) := by
      intro hne
      have := ih (u++[c]) hne
      rwa [List.append_assoc] at this
    rw [run_concat] at hstep
    cases hu : upper c with
    | true =>
      rw [hu,if_pos rfl] at hstep
      cases hh : hidden (run 0 u) t with
      | true =>
        simp only [hidden,Bool.and_eq_true,decide_eq_true_eq,Bool.not_eq_true'] at hh
        obtain ⟨w,a,b,rfl,ha,hb⟩ := two_capitals u hh.1.1
        exact ⟨w,a,b,c,t,by simp,⟨ha,hb,hu⟩,hh.2⟩
      | false =>
        refine hstep fun he => h ?_
        simp only [soften,hu,hh,if_true,Bool.false_eq_true,if_false,he]
    | false =>
      rw [hu,if_neg Bool.false_ne_true] at hstep
      refine hstep fun he => h ?_
      simp only [soften,hu,Bool.false_eq_true,if_false,he]

/- The third capital of the run that the three are in is softened. -/
theorem soften_ne_of_loses (u v : List Char) (a b c : Char) (ha : upper a=true) (hb : upper b=true)
    (hc : upper c=true) (hv : nextIs lower v=false) :
    soften 0 (u++a::b::c::v)≠u++a::b::c::v := by
  induction hn : u.length generalizing u a b c v with
  | zero =>
    rw [List.length_eq_zero_iff.mp hn,List.nil_append]
    intro h
    simp only [soften,ha,hb,hc,if_true,hidden_zero,hidden_of_odd (0+1),Bool.false_eq_true,if_false,
      hidden_of_even 0 v rfl hv,List.cons.injEq,true_and] at h
    exact (upper_toLower c hc).2.2.1 h.1
  | succ n ih =>
    rcases List.eq_nil_or_concat u with rfl | ⟨u,d,rfl⟩
    · cases hn
    · rw [List.concat_eq_append] at hn ⊢
      have hlen : u.length=n := by simpa using hn
      cases hd : upper d with
      | true =>
        have hnl : nextIs lower (c::v)=false := (upper_toLower c hc).2.2.2.1
        have := ih u (c::v) d a b hd ha hb hnl hlen
        rwa [List.append_assoc]
      | false =>
        intro h
        have hdrop := congrArg (List.drop (u++[d]).length) h
        rw [drop_soften,run_concat,hd,if_neg Bool.false_ne_true,List.drop_left] at hdrop
        simp only [soften,ha,hb,hc,if_true,hidden_zero,hidden_of_odd (0+1),Bool.false_eq_true,if_false,
          hidden_of_even 0 v rfl hv,List.cons.injEq,true_and] at hdrop
        exact (upper_toLower c hc).2.2.1 hdrop.1

theorem soften_eq_iff (n : List Char) : soften 0 n=n ↔ ¬ Loses n := by
  constructor
  · rintro h ⟨u,a,b,c,v,rfl,⟨ha,hb,hc⟩,hv⟩
    exact soften_ne_of_loses u v a b c ha hb hc hv h
  · intro h
    by_contra hne
    exact h (loses_of_soften_ne n [] hne)

end Clamator.Codegen
