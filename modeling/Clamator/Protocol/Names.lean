import Mathlib.Data.List.Basic

/-!
# Service and method names (`envelope.ts`, `envelope.py`)

`SERVICE_RE` and `METHOD_RE` are the same two patterns in both languages: one
character of a head class, then characters of a tail class up to the end. The
anchors differ. JavaScript's `$` is the end of the string; Python's `re.match`
with `$` also stops before a newline that ends the string.
-/

namespace Clamator.Protocol

/- `^[head][tail]*$` read to the very end of the string. -/
def spells (head tail : Char → Bool) : List Char → Bool
  | [] => false
  | c::cs => head c && cs.all tail

/-- The same pattern under Python's `$`. -/
def spellsLine (head tail : Char → Bool) (s : List Char) : Bool :=
  spells head tail s || (s.getLast? == some '\n' && spells head tail s.dropLast)

def lower (c : Char) : Bool := decide ('a' ≤ c) && decide (c ≤ 'z')
def upper (c : Char) : Bool := decide ('A' ≤ c) && decide (c ≤ 'Z')
def digit (c : Char) : Bool := decide ('0' ≤ c) && decide (c ≤ '9')
def serviceTail (c : Char) : Bool := lower c || digit c || c == '-'
def methodTail (c : Char) : Bool := lower c || upper c || digit c

/- `SERVICE_RE.test`, `METHOD_RE.test` -/
def serviceRe (s : List Char) : Bool := spells lower serviceTail s
def methodRe (s : List Char) : Bool := spells lower methodTail s

theorem serviceRe_arith : serviceRe "arith".toList=true := rfl

/- `SERVICE_RE.match`, `METHOD_RE.match` -/
def serviceReMatch (s : List Char) : Bool := spellsLine lower serviceTail s
def methodReMatch (s : List Char) : Bool := spellsLine lower methodTail s

theorem spellsLine_of_spells (head tail : Char → Bool) (s : List Char)
    (h : spells head tail s=true) : spellsLine head tail s=true := by
  simp only [spellsLine,h,Bool.true_or]

theorem spells_iff_cons (head tail : Char → Bool) (s : List Char) : spells head tail s=true ↔
    ∃ c cs, s=c::cs ∧ head c=true ∧ ∀ d∈cs, tail d=true := by
  cases s with
  | nil => simp [spells]
  | cons c cs =>
    simp only [spells,Bool.and_eq_true,List.all_eq_true]
    constructor
    · rintro ⟨hc,hcs⟩
      exact ⟨c,cs,rfl,hc,hcs⟩
    · rintro ⟨d,ds,he,hd,hds⟩
      cases he
      exact ⟨hd,hds⟩

theorem spells_all (head tail : Char → Bool) (p : Char → Bool) (hh : ∀ c, head c=true → p c=true)
    (ht : ∀ c, tail c=true → p c=true) (s : List Char) (h : spells head tail s=true) :
    ∀ c∈s, p c=true := by
  obtain ⟨d,ds,rfl,hd,hds⟩ := (spells_iff_cons head tail s).mp h
  intro c hc
  rcases List.mem_cons.mp hc with rfl | hc
  · exact hh c hd
  · exact ht c (hds c hc)

theorem spellsLine_ne_nil (head tail : Char → Bool) (s : List Char)
    (h : spellsLine head tail s=true) : s≠[] := by
  rintro rfl
  simp [spellsLine,spells] at h

theorem spellsLine_all (head tail : Char → Bool) (p : Char → Bool)
    (hh : ∀ c, head c=true → p c=true) (ht : ∀ c, tail c=true → p c=true) (hn : p '\n'=true)
    (s : List Char) (h : spellsLine head tail s=true) : ∀ c∈s, p c=true := by
  simp only [spellsLine,Bool.or_eq_true,Bool.and_eq_true,beq_iff_eq] at h
  rcases h with h | ⟨hl,h⟩
  · exact spells_all head tail p hh ht s h
  · obtain ⟨init,rfl⟩ := List.getLast?_eq_some_iff.mp hl
    rw [List.dropLast_concat] at h
    intro c hc
    rcases List.mem_append.mp hc with hc | hc
    · exact spells_all head tail p hh ht init h c hc
    · rw [List.mem_singleton.mp hc]
      exact hn

/- A character that is not in the class. -/
theorem ne_of_class (p : Char → Bool) (c d : Char) (hd : p d=false) (h : p c=true) : c≠d := by
  rintro rfl
  rw [hd] at h
  cases h

/- Not even Python lets a dot into a service name. -/
theorem serviceReMatch_noDot (s : List Char) (h : serviceReMatch s=true) :
    ∀ c∈s, (c != '.')=true :=
  spellsLine_all lower serviceTail (· != '.')
    (fun c hc => bne_iff_ne.mpr (ne_of_class lower c '.' (by decide) hc))
    (fun c hc => bne_iff_ne.mpr (ne_of_class serviceTail c '.' (by decide) hc)) (by decide) s h

/-! ### Splitting at the first dot -/

/-- `fullMethod.indexOf('.')` and the two `slice`s; `none` where the guard
`dot <= 0 || dot === fullMethod.length - 1` throws. -/
def sliceAtDot (m : List Char) : Option (List Char × List Char) :=
  match m.findIdx? (· == '.') with
  | none => none
  | some dot => if dot=0 ∨ dot=m.length-1 then none else some (m.take dot,m.drop (dot+1))

/- `full_method.partition(".")`; `none` where the dot or one of the sides is missing. -/
def partitionAtDot (m : List Char) : Option (List Char × List Char) :=
  if m.contains '.' then
    let service := m.takeWhile (· != '.')
    let method := m.drop (service.length+1)
    if service.isEmpty || method.isEmpty then none else some (service,method)
  else none

theorem findIdx?_dot (m : List Char) : m.findIdx? (· == '.')=
    if m.contains '.' then some (m.takeWhile (· != '.')).length else none := by
  induction m with
  | nil => rfl
  | cons c cs ih =>
    simp only [List.findIdx?_cons,List.takeWhile_cons,List.contains_cons]
    by_cases hc : c = '.'
    · subst c
      simp
    · have h1 : (c == '.')=false := by simp [hc]
      have h2 : ('.' == c)=false := by simp [Ne.symm hc]
      have h3 : (c != '.')=true := by simp [hc]
      simp only [h1,h2,h3,Bool.false_or,Bool.false_eq_true,if_false,if_true,List.length_cons,ih]
      by_cases hcs : cs.contains '.'=true
      · simp only [hcs,if_true,Option.map_some]
      · simp only [hcs,Bool.false_eq_true,if_false,Option.map_none]

theorem sliceAtDot_eq_partitionAtDot (m : List Char) : sliceAtDot m=partitionAtDot m := by
  unfold sliceAtDot partitionAtDot
  rw [findIdx?_dot]
  by_cases hm : m.contains '.'=true
  · simp only [hm,if_true]
    have hle : (m.takeWhile (· != '.')).length ≤ m.length := (List.takeWhile_prefix _).length_le
    have htake : m.take (m.takeWhile (· != '.')).length=m.takeWhile (· != '.') :=
      (List.prefix_iff_eq_take.mp (List.takeWhile_prefix _)).symm
    have hlt : (m.takeWhile (· != '.')).length < m.length := by
      refine Nat.lt_of_le_of_ne hle fun heq => ?_
      have hself : m.takeWhile (· != '.')=m := (List.takeWhile_prefix _).eq_of_length heq
      have hmem : '.'∈m.takeWhile (· != '.') := by
        rw [hself]
        exact List.contains_iff_mem.mp hm
      have hdot := List.all_takeWhile (p := (· != '.')) (l := m)
      simpa using List.all_eq_true.mp hdot '.' hmem
    have hempty : ((m.takeWhile (· != '.')).isEmpty ||
        (m.drop ((m.takeWhile (· != '.')).length+1)).isEmpty)=
        decide ((m.takeWhile (· != '.')).length=0 ∨ (m.takeWhile (· != '.')).length=m.length-1) := by
      rw [Bool.eq_iff_iff]
      simp only [Bool.or_eq_true,List.isEmpty_iff_length_eq_zero,List.length_drop,decide_eq_true_eq]
      omega
    rw [hempty,htake]
    by_cases hg : (m.takeWhile (· != '.')).length=0 ∨ (m.takeWhile (· != '.')).length=m.length-1
    · simp only [hg,if_true,decide_true]
    · simp only [hg,if_false,decide_false,Bool.false_eq_true]
  · simp only [hm,Bool.false_eq_true,if_false]

/- The part before the first dot has none, so a service name followed by a dot
is found again. -/
theorem sliceAtDot_join (s n : List Char) (hs : s≠[]) (hn : n≠[]) (hd : ∀ c∈s, (c != '.')=true) :
    sliceAtDot (s ++ '.'::n)=some (s,n) := by
  have htake : (s ++ '.'::n).takeWhile (· != '.')=s := by
    rw [List.takeWhile_append_of_pos hd]
    simp
  rw [sliceAtDot_eq_partitionAtDot,partitionAtDot]
  have hc : (s ++ '.'::n).contains '.'=true := by simp
  simp only [hc,if_true,htake]
  have hdrop : (s ++ '.'::n).drop (s.length+1)=n := by simp
  rw [hdrop]
  simp [hs,hn]

example : sliceAtDot "arith.add".toList=some ("arith".toList,"add".toList) := by decide
example : serviceReMatch "arith\n".toList=true ∧ serviceRe "arith\n".toList=false := by decide

end Clamator.Protocol
