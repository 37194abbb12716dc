import Clamator.Base.Tree

/-!
# The text of a JSON tree

A tree is written with two blanks of indentation a level, as
`JSON.stringify(v, null, 2)` does. The text of the leaves is a parameter. Where no
leaf's text can be taken for another's with something behind it, no two trees have one text.
-/

namespace Clamator.Base.JsonText

/-! ### Quoted strings -/

/- The letter of a two-character escape. -/
def short (c : Char) : Option Char :=
  if c = '"' then some '"'
  else if c = '\\' then some '\\'
  else if c.toNat=8 then some 'b'
  else if c = '\t' then some 't'
  else if c = '\n' then some 'n'
  else if c.toNat=12 then some 'f'
  else if c = '\r' then some 'r'
  else none

def escape (c : Char) : List Char := match short c with
  | some e => ['\\',e]
  | none =>
    if c.toNat < 32 then ['\\','u','0','0',(c.toNat/16).digitChar,(c.toNat%16).digitChar] else [c]

def quote (s : List Char) : List Char := '"'::s.flatMap escape++['"']

theorem short_cases (c e : Char) (h : short c=some e) :
    c = '"' ∧ e = '"' ∨ c = '\\' ∧ e = '\\' ∨ c.toNat=8 ∧ e = 'b' ∨ c = '\t' ∧ e = 't' ∨ c = '\n' ∧ e = 'n' ∨
      c.toNat=12 ∧ e = 'f' ∨ c = '\r' ∧ e = 'r' := by
  unfold short at h
  repeat' split at h
  all_goals
    cases h
    try simp_all

theorem short_inj (c d e : Char) (hc : short c=some e) (hd : short d=some e) : c=d := by
  have key : ∀ n : ℕ, c.toNat=n → d.toNat=n → c=d := fun n h1 h2 => Char.toNat_inj.mp (h1.trans h2.symm)
  rcases short_cases c e hc with h | h | h | h | h | h | h <;>
    rcases short_cases d e hd with h' | h' | h' | h' | h' | h' | h' <;> grind

theorem short_ne_u (c : Char) : short c≠some 'u' := by
  intro h
  rcases short_cases c 'u' h with h | h | h | h | h | h | h <;> exact absurd h.2 (by decide)

theorem short_none (c : Char) (h : short c=none) : c≠ '"' ∧ c≠ '\\' := by
  refine ⟨?_,?_⟩ <;>
  · rintro rfl
    simp [short] at h

theorem hex_inj (n m : ℕ) (hn : n < 32) (hm : m < 32) (h1 : (n/16).digitChar=(m/16).digitChar)
    (h2 : (n%16).digitChar=(m%16).digitChar) : n=m := by
  have hall : ∀ n < 32, ∀ m < 32, (n/16).digitChar=(m/16).digitChar →
      (n%16).digitChar=(m%16).digitChar → n=m := by decide
  exact hall n hn m hm h1 h2

/- No escape is the beginning of another. -/
theorem escape_unique (c d : Char) (r s : List Char) (h : escape c++r=escape d++s) : c=d ∧ r=s := by
  unfold escape at h
  cases hc : short c with
  | some e => cases hd : short d with
    | some e' =>
      simp only [hc,hd,List.cons_append,List.nil_append,List.cons.injEq,true_and] at h
      obtain ⟨rfl,rfl⟩ := h
      exact ⟨short_inj c d e hc hd,rfl⟩
    | none =>
      simp only [hc,hd] at h
      split at h
      · simp only [List.cons_append,List.cons.injEq,true_and] at h
        exact absurd (h.1 ▸ hc) (short_ne_u c)
      · simp only [List.cons_append,List.cons.injEq] at h
        exact absurd h.1.symm (short_none d hd).2
  | none => cases hd : short d with
    | some e' =>
      simp only [hc,hd] at h
      split at h
      · simp only [List.cons_append,List.cons.injEq,true_and] at h
        exact absurd (h.1 ▸ hd) (short_ne_u d)
      · simp only [List.cons_append,List.cons.injEq] at h
        exact absurd h.1 (short_none c hc).2
    | none =>
      simp only [hc,hd] at h
      split at h
      · rename_i h1
        split at h
        · rename_i h2
          simp only [List.cons_append,List.nil_append,List.cons.injEq,true_and] at h
          exact ⟨Char.toNat_inj.mp (hex_inj _ _ h1 h2 h.1 h.2.1),h.2.2⟩
        · simp only [List.cons_append,List.cons.injEq] at h
          exact absurd h.1.symm (short_none d hd).2
      · split at h
        · simp only [List.cons_append,List.cons.injEq] at h
          exact absurd h.1 (short_none c hc).2
        · simp only [List.cons_append,List.nil_append,List.cons.injEq] at h
          exact h

theorem escape_head (c : Char) : ∃ e es, escape c=e::es ∧ e≠ '"' := by
  unfold escape
  cases hc : short c with
  | some e => exact ⟨'\\',[e],rfl,by decide⟩
  | none =>
    simp only
    split
    · exact ⟨'\\',_,rfl,by decide⟩
    · exact ⟨c,[],rfl,(short_none c hc).1⟩

theorem body_unique (s t r r' : List Char)
    (h : s.flatMap escape++ '"'::r=t.flatMap escape++ '"'::r') : s=t ∧ r=r' := by
  induction s generalizing t with
  | nil => cases t with
    | nil => exact ⟨rfl,(List.cons.inj h).2⟩
    | cons d t =>
      obtain ⟨e,es,he,hne⟩ := escape_head d
      simp only [List.flatMap_nil,List.nil_append,List.flatMap_cons,he,List.cons_append,List.cons.injEq] at h
      exact absurd h.1.symm hne
  | cons c s ih => cases t with
    | nil =>
      obtain ⟨e,es,he,hne⟩ := escape_head c
      simp only [List.flatMap_nil,List.nil_append,List.flatMap_cons,he,List.cons_append,List.cons.injEq] at h
      exact absurd h.1 hne
    | cons d t =>
      simp only [List.flatMap_cons,List.append_assoc] at h
      obtain ⟨hcd,hst⟩ := escape_unique c d _ _ h
      obtain ⟨hs,hr⟩ := ih t hst
      exact ⟨by rw [hcd,hs],hr⟩

theorem quote_unique (s t r r' : List Char) (h : quote s++r=quote t++r') : s=t ∧ r=r' := by
  refine body_unique s t r r' ?_
  simpa only [quote,List.cons_append,List.append_assoc,List.nil_append,List.cons.injEq,true_and] using h

/-! ### Trees -/

/-- Nothing, or what follows a value inside an array or an object. -/
def Stop : List Char → Prop
  | [] => True
  | c::_ => c = ',' ∨ c = '\n'

/-- The text of the leaves: no bracket begins one, and with a `Stop` behind it a leaf's text is
no other's. -/
structure LeafCode (L : Type) where
  code : L → List Char
  head : ∀ a, ∃ c cs, code a=c::cs ∧ c≠ '[' ∧ c≠ '\x7b'
  unique : ∀ a b r r', Stop r → Stop r' → code a++r=code b++r' → a=b ∧ r=r'

def newline (n : ℕ) : List Char := '\n'::List.replicate n ' '

section
variable {L : Type} (C : LeafCode L)

mutual
def pretty (n : ℕ) : JsonTree L → List Char
  | .leaf a => C.code a
  | .arr [] => ['[',']']
  | .arr (x::xs) => '['::newline (n+2)++pretty (n+2) x++prettyItems (n+2) xs++newline n++[']']
  | .obj [] => ['\x7b','\x7d']
  | .obj ((k,v)::fs) => '\x7b'::newline (n+2)++quote k.toList++[':',' ']++pretty (n+2) v++
      prettyFields (n+2) fs++newline n++['\x7d']
def prettyItems (n : ℕ) : List (JsonTree L) → List Char
  | [] => []
  | x::xs => ','::newline n++pretty n x++prettyItems n xs
def prettyFields (n : ℕ) : List (String × JsonTree L) → List Char
  | [] => []
  | (k,v)::fs => ','::newline n++quote k.toList++[':',' ']++pretty n v++prettyFields n fs
end

theorem stop_newline (n : ℕ) (r : List Char) : Stop (newline n++r) := Or.inr rfl

theorem stop_items (n m : ℕ) (xs : List (JsonTree L)) (r : List Char) :
    Stop (prettyItems C n xs++(newline m++r)) := by
  cases xs with
  | nil => exact stop_newline m r
  | cons x xs => exact Or.inl rfl

theorem stop_fields (n m : ℕ) (fs : List (String × JsonTree L)) (r : List Char) :
    Stop (prettyFields C n fs++(newline m++r)) := by
  cases fs with
  | nil => exact stop_newline m r
  | cons kv fs => exact Or.inl rfl

/-- A tree's text with a `Stop` behind it is no other tree's. -/
def Unique (t : JsonTree L) : Prop := ∀ n t' r r', Stop r → Stop r' →
  pretty C n t++r=pretty C n t'++r' → t=t' ∧ r=r'

theorem items_unique (xs : List (JsonTree L)) (ih : ∀ x∈xs, Unique C x) (n m : ℕ)
    (ys : List (JsonTree L)) (r r' : List Char)
    (h : prettyItems C n xs++(newline m++r)=prettyItems C n ys++(newline m++r')) :
    xs=ys ∧ r=r' := by
  induction xs generalizing ys with
  | nil => cases ys with
    | nil => exact ⟨rfl,List.append_cancel_left h⟩
    | cons y ys => exact absurd (List.cons.inj h).1 (by decide)
  | cons x xs ihs => cases ys with
    | nil => exact absurd (List.cons.inj h).1 (by decide)
    | cons y ys =>
      simp only [prettyItems,List.append_assoc,List.cons_append,List.cons.injEq,true_and] at h
      have h := List.append_cancel_left h
      obtain ⟨hxy,h⟩ := ih x List.mem_cons_self n y _ _ (stop_items C n m xs r) (stop_items C n m ys r') h
      obtain ⟨hxs,hr⟩ := ihs (fun z hz => ih z (List.mem_cons_of_mem _ hz)) ys h
      exact ⟨by rw [hxy,hxs],hr⟩

theorem field_unique (k k' : String) (v v' : JsonTree L) (hv : Unique C v) (n m : ℕ)
    (fs gs : List (String × JsonTree L)) (r r' : List Char)
    (h : quote k.toList++(':':: ' '::(pretty C n v++(prettyFields C n fs++(newline m++r))))=
      quote k'.toList++(':':: ' '::(pretty C n v'++(prettyFields C n gs++(newline m++r'))))) :
    (k,v)=(k',v') ∧ prettyFields C n fs++(newline m++r)=prettyFields C n gs++(newline m++r') := by
  obtain ⟨hk,h⟩ := quote_unique _ _ _ _ h
  simp only [List.cons.injEq,true_and] at h
  obtain ⟨hvv,h⟩ := hv n v' _ _ (stop_fields C n m fs r) (stop_fields C n m gs r') h
  exact ⟨by rw [String.toList_inj.mp hk,hvv],h⟩

theorem fields_unique (fs : List (String × JsonTree L)) (ih : ∀ kx∈fs, Unique C kx.2) (n m : ℕ)
    (gs : List (String × JsonTree L)) (r r' : List Char)
    (h : prettyFields C n fs++(newline m++r)=prettyFields C n gs++(newline m++r')) :
    fs=gs ∧ r=r' := by
  induction fs generalizing gs with
  | nil => cases gs with
    | nil => exact ⟨rfl,List.append_cancel_left h⟩
    | cons kv gs => exact absurd (List.cons.inj h).1 (by decide)
  | cons kv fs ihs =>
    obtain ⟨k,v⟩ := kv
    cases gs with
    | nil => exact absurd (List.cons.inj h).1 (by decide)
    | cons kw gs =>
      obtain ⟨k',w⟩ := kw
      simp only [prettyFields,List.append_assoc,List.cons_append,List.nil_append,List.cons.injEq,
        true_and] at h
      have h := List.append_cancel_left h
      obtain ⟨hkv,h⟩ := field_unique C k k' v w (ih (k,v) List.mem_cons_self) n m fs gs r r' h
      obtain ⟨hfs,hr⟩ := ihs (fun z hz => ih z (List.mem_cons_of_mem _ hz)) gs h
      exact ⟨by rw [hkv,hfs],hr⟩

theorem code_unique_head (a : L) (r : List Char) (c : Char) (cs : List Char)
    (hc : c = '[' ∨ c = '\x7b') : C.code a++r≠c::cs := by
  obtain ⟨d,ds,hd,h1,h2⟩ := C.head a
  rw [hd]
  intro h
  have hdc : d=c := (List.cons.inj h).1
  rcases hc with hc | hc
  · exact h1 (hdc.trans hc)
  · exact h2 (hdc.trans hc)

theorem pretty_arr_head (n : ℕ) (xs : List (JsonTree L)) : ∃ cs, pretty C n (.arr xs) = '['::cs := by
  cases xs <;> exact ⟨_,rfl⟩

theorem pretty_obj_head (n : ℕ) (fs : List (String × JsonTree L)) :
    ∃ cs, pretty C n (.obj fs) = '\x7b'::cs := by
  rcases fs with _ | ⟨⟨k,v⟩,fs⟩ <;> exact ⟨_,rfl⟩

theorem arr_unique (xs : List (JsonTree L)) (ih : ∀ x∈xs, Unique C x) (n : ℕ)
    (ys : List (JsonTree L)) (r r' : List Char)
    (h : pretty C n (.arr xs)++r=pretty C n (.arr ys)++r') : xs=ys ∧ r=r' := by
  cases xs with
  | nil => cases ys with
    | nil => exact ⟨rfl,List.append_cancel_left h⟩
    | cons y ys => exact absurd (List.cons.inj (List.cons.inj h).2).1 (by decide)
  | cons x xs => cases ys with
    | nil => exact absurd (List.cons.inj (List.cons.inj h).2).1 (by decide)
    | cons y ys =>
      simp only [pretty,List.append_assoc,List.cons_append,List.nil_append,List.cons.injEq,true_and] at h
      have h := List.append_cancel_left h
      obtain ⟨hxy,h⟩ := ih x List.mem_cons_self (n+2) y _ _ (stop_items C (n+2) n xs _)
        (stop_items C (n+2) n ys _) h
      obtain ⟨hxs,hr⟩ := items_unique C xs (fun z hz => ih z (List.mem_cons_of_mem _ hz)) (n+2) n ys _ _ h
      exact ⟨by rw [hxy,hxs],(List.cons.inj hr).2⟩

theorem obj_unique (fs : List (String × JsonTree L)) (ih : ∀ kx∈fs, Unique C kx.2) (n : ℕ)
    (gs : List (String × JsonTree L)) (r r' : List Char)
    (h : pretty C n (.obj fs)++r=pretty C n (.obj gs)++r') : fs=gs ∧ r=r' := by
  rcases fs with _ | ⟨⟨k,v⟩,fs⟩
  · rcases gs with _ | ⟨⟨k',w⟩,gs⟩
    · exact ⟨rfl,List.append_cancel_left h⟩
    · exact absurd (List.cons.inj (List.cons.inj h).2).1 (by decide)
  · rcases gs with _ | ⟨⟨k',w⟩,gs⟩
    · exact absurd (List.cons.inj (List.cons.inj h).2).1 (by decide)
    · simp only [pretty,List.append_assoc,List.cons_append,List.nil_append,List.cons.injEq,true_and] at h
      have h := List.append_cancel_left h
      obtain ⟨hkv,h⟩ := field_unique C k k' v w (ih (k,v) List.mem_cons_self) (n+2) n fs gs _ _ h
      obtain ⟨hfs,hr⟩ := fields_unique C fs (fun z hz => ih z (List.mem_cons_of_mem _ hz)) (n+2) n gs _ _ h
      exact ⟨by rw [hkv,hfs],(List.cons.inj hr).2⟩

theorem pretty_unique (t : JsonTree L) : Unique C t := by
  induction t using JsonTree.induct with
  | leaf a =>
    intro n t' r r' hr hr' h
    cases t' with
    | leaf b =>
      obtain ⟨hab,hrr⟩ := C.unique a b r r' hr hr' h
      exact ⟨by rw [hab],hrr⟩
    | arr ys =>
      obtain ⟨cs,hcs⟩ := pretty_arr_head C n ys
      rw [hcs] at h
      exact absurd h (code_unique_head C a r '[' _ (Or.inl rfl))
    | obj gs =>
      obtain ⟨cs,hcs⟩ := pretty_obj_head C n gs
      rw [hcs] at h
      exact absurd h (code_unique_head C a r '\x7b' _ (Or.inr rfl))
  | arr xs ih =>
    intro n t' r r' hr hr' h
    obtain ⟨cs,hcs⟩ := pretty_arr_head C n xs
    cases t' with
    | leaf b =>
      rw [hcs] at h
      exact absurd h.symm (code_unique_head C b r' '[' _ (Or.inl rfl))
    | arr ys =>
      obtain ⟨hxs,hrr⟩ := arr_unique C xs ih n ys r r' h
      exact ⟨by rw [hxs],hrr⟩
    | obj gs =>
      obtain ⟨ds,hds⟩ := pretty_obj_head C n gs
      rw [hcs,hds] at h
      exact absurd (List.cons.inj h).1 (by decide)
  | obj fs ih =>
    intro n t' r r' hr hr' h
    obtain ⟨cs,hcs⟩ := pretty_obj_head C n fs
    cases t' with
    | leaf b =>
      rw [hcs] at h
      exact absurd h.symm (code_unique_head C b r' '\x7b' _ (Or.inr rfl))
    | arr ys =>
      obtain ⟨ds,hds⟩ := pretty_arr_head C n ys
      rw [hcs,hds] at h
      exact absurd (List.cons.inj h).1 (by decide)
    | obj gs =>
      obtain ⟨hfs,hrr⟩ := obj_unique C fs ih n gs r r' h
      exact ⟨by rw [hfs],hrr⟩

theorem pretty_injective (n : ℕ) (t t' : JsonTree L) (h : pretty C n t=pretty C n t') : t=t' := by
  refine (pretty_unique C t n t' [] [] trivial trivial ?_).1
  rw [h]

end

/-! ### Strings and nulls -/

/- A string, or null. -/
def textCode : Option String → List Char
  | some s => quote s.toList
  | none => "null".toList

theorem textCode_unique (a b : Option String) (r r' : List Char)
    (h : textCode a++r=textCode b++r') : a=b ∧ r=r' := by
  cases a with
  | some s => cases b with
    | some t =>
      obtain ⟨hst,hr⟩ := quote_unique _ _ _ _ h
      exact ⟨congrArg some (String.toList_inj.mp hst),hr⟩
    | none => exact absurd (List.cons.inj h).1 (by decide)
  | none => cases b with
    | some t => exact absurd (List.cons.inj h).1 (by decide)
    | none => exact ⟨rfl,List.append_cancel_left h⟩

theorem textCode_head (a : Option String) :
    ∃ c cs, textCode a=c::cs ∧ c≠ '[' ∧ c≠ '\x7b' := by
  cases a with
  | some s => exact ⟨'"',_,rfl,by decide,by decide⟩
  | none => exact ⟨'n',_,rfl,by decide,by decide⟩

def textLeaves : LeafCode (Option String) where
  code := textCode
  head := textCode_head
  unique := fun a b r r' _ _ h => textCode_unique a b r r' h

end Clamator.Base.JsonText
