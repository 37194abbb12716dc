import Clamator.Protocol.Names
import Clamator.Redis.World

/-!
# The keys of a deployment (`keys.ts`, `keys.py`)

A key is a prefix, a separator and a name, joined without escaping. Service names
have no colon; prefixes and instance ids may have any. A client deletes its reply
stream when it stops.
-/

namespace Clamator.Redis
open Clamator.Protocol

def commandStream (keyPrefix service : String) : String := keyPrefix++":cmds:"++service

def replyStream (keyPrefix instanceId : String) : String := keyPrefix++":replies:"++instanceId

theorem Deployment.commandStream_eq (D : Deployment) (service : String) :
    D.commandStream service=Redis.commandStream D.keyPrefix service := rfl

theorem Deployment.replyStream_eq (D : Deployment) (instanceId : String) :
    D.replyStream instanceId=Redis.replyStream D.keyPrefix instanceId := rfl

/-- The instance id that a constructor keeps: `??` gives way on a missing id,
Python's `or` on an empty one too. -/
def instanceIdOf (lang : Lang) (given : Option String) (uuid : String) : String :=
  match lang,given with
  | _,none => uuid
  | .ts,some id => id
  | .py,some id => if id="" then uuid else id

/- DEL: a key that is gone is an empty stream. -/
def World.del (w : World) (key : String) : World := w.setStream key .empty

theorem World.del_streams_of_ne (w : World) (key k : String) (h : k≠key) :
    (w.del key).streams k=w.streams k := if_neg h

theorem World.del_streams_self (w : World) (key : String) : (w.del key).streams key=.empty :=
  if_pos rfl

/-! ### Suffixes of a joined key -/

/- A suffix that starts with the separator's first character starts at the
separator or behind it. -/
theorem suffix_separator {α : Type*} (c : α) (b x y : List α) (hb : c∉b)
    (h : c::x <:+ c::b++y) : c::x <:+ y ∨ x=b++y := by
  rcases List.suffix_cons_iff.mp h with h | h
  · exact Or.inr (List.cons.inj h).2
  · left
    obtain ⟨u,hu⟩ := h
    rcases List.append_eq_append_iff.mp hu with ⟨v,rfl,hv⟩ | ⟨v,rfl,hv⟩
    · cases v with
      | nil => exact ⟨[],hv⟩
      | cons d ds =>
        have hd : c=d := (List.cons.inj hv).1
        exact absurd (List.mem_append_right u (hd ▸ List.mem_cons_self)) hb
    · exact ⟨v,hv.symm⟩

theorem not_suffix_colon (x s : List Char) (hx : ':'∈x) (hs : ':'∉s) :
    ¬ ':'::x <:+ ':'::s := by
  intro h
  rcases List.suffix_cons_iff.mp h with h | h
  · rw [(List.cons.inj h).2] at hx
    exact hs hx
  · exact hs (h.subset List.mem_cons_self)

/-- `s.endsWith(t)` -/
def EndsWith (s t : String) : Prop := t.toList <:+ s.toList

instance (s t : String) : Decidable (EndsWith s t) := inferInstanceAs (Decidable (_ <:+ _))

theorem serviceRe_noColon (s : List Char) (h : serviceRe s=true) : ':'∉s := by
  intro hm
  have hall := spells_all lower serviceTail (· != ':')
    (fun c hc => bne_iff_ne.mpr (ne_of_class lower c ':' (by decide) hc))
    (fun c hc => bne_iff_ne.mpr (ne_of_class serviceTail c ':' (by decide) hc)) s h
  exact absurd (hall ':' hm) (by decide)

theorem commandStream_toList (p s : String) : (commandStream p s).toList=
    p.toList++(':'::"cmds".toList++ ':'::s.toList) := by
  simp [commandStream]

theorem replyStream_toList (p i : String) : (replyStream p i).toList=
    p.toList++(':'::"replies".toList++ ':'::i.toList) := by
  simp [replyStream]

/- Two names behind prefixes of one key. -/
theorem suffix_or_suffix {p p' a b : List Char} (h : p++a=p'++b) : a <:+ b ∨ b <:+ a :=
  List.suffix_or_suffix_of_suffix ⟨p,h⟩ ⟨p',rfl⟩

/-! ### When keys are isolated -/

/-- A stream that a deployment under the prefix works with, when its clients take their ids
from `ids`. -/
inductive Owns (ids : String → Prop) (keyPrefix : String) : String → Prop where
  | command (service : String) : serviceRe service.toList=true →
      Owns ids keyPrefix (commandStream keyPrefix service)
  | reply (instanceId : String) : ids instanceId → Owns ids keyPrefix (replyStream keyPrefix instanceId)

/-- Under every two prefixes, for all service names and all ids of `ids`. -/
structure Isolated (ids : String → Prop) : Prop where
  command : ∀ p p' s s', serviceRe s.toList=true → serviceRe s'.toList=true →
    commandStream p s=commandStream p' s' → p=p' ∧ s=s'
  reply : ∀ p p' i i', ids i → ids i' → replyStream p i=replyStream p' i' → p=p' ∧ i=i'
  apart : ∀ p p' s i, serviceRe s.toList=true → ids i → commandStream p s≠replyStream p' i
  unshared : ∀ p p' key, Owns ids p key → Owns ids p' key → p=p'
  deleted : ∀ (w : World) p i p' key, ids i → Owns ids p' key →
    (w.del (replyStream p i)).streams key=w.streams key ∨ p'=p ∧ key=replyStream p i

/-- The separator and another name at the end of an id. -/
structure Separable (ids : String → Prop) : Prop where
  reply : ∀ i i', ids i → ids i' → ¬ EndsWith (":"++i) (":replies:"++i')
  command : ∀ i s, ids i → serviceRe s.toList=true → ¬ EndsWith (":"++i) (":cmds:"++s)

theorem commandStream_injective (p p' s s' : String) (hs : serviceRe s.toList=true)
    (hs' : serviceRe s'.toList=true) (h : commandStream p s=commandStream p' s') : p=p' ∧ s=s' := by
  have key : ∀ a b : String, serviceRe b.toList=true →
      ':'::("cmds".toList++ ':'::a.toList) <:+ ':'::("cmds".toList++ ':'::b.toList) → a=b := by
    intro a b hb hab
    rcases suffix_separator ':' "cmds".toList _ (':'::b.toList) (by decide) hab with hab | hab
    · exact absurd hab (not_suffix_colon _ _ (by simp) (serviceRe_noColon _ hb))
    · exact String.toList_inj.mp (List.cons.inj (List.append_cancel_left hab)).2
  have hl := congrArg String.toList h
  rw [commandStream_toList,commandStream_toList] at hl
  have hss : s=s' := by
    rcases suffix_or_suffix hl with hab | hab
    · exact key s s' hs' hab
    · exact (key s' s hs hab).symm
  subst hss
  exact ⟨String.toList_inj.mp (List.append_cancel_right hl),rfl⟩

section
variable {ids : String → Prop}

theorem Separable.reply_injective (h : Separable ids) (p p' i i' : String) (hi : ids i)
    (hi' : ids i') (he : replyStream p i=replyStream p' i') : p=p' ∧ i=i' := by
  have key : ∀ a b : String, ids a → ids b →
      ':'::("replies".toList++ ':'::a.toList) <:+ ':'::("replies".toList++ ':'::b.toList) → a=b := by
    intro a b ha hb hab
    rcases suffix_separator ':' "replies".toList _ (':'::b.toList) (by decide) hab with hab | hab
    · refine absurd ?_ (h.reply b a hb ha)
      simpa [EndsWith] using hab
    · exact String.toList_inj.mp (List.cons.inj (List.append_cancel_left hab)).2
  have hl := congrArg String.toList he
  rw [replyStream_toList,replyStream_toList] at hl
  have hii : i=i' := by
    rcases suffix_or_suffix hl with hab | hab
    · exact key i i' hi hi' hab
    · exact (key i' i hi' hi hab).symm
  subst hii
  exact ⟨String.toList_inj.mp (List.append_cancel_right hl),rfl⟩

theorem Separable.apart (h : Separable ids) (p p' s i : String) (hs : serviceRe s.toList=true)
    (hi : ids i) : commandStream p s≠replyStream p' i := by
  intro he
  have hl := congrArg String.toList he
  rw [commandStream_toList,replyStream_toList] at hl
  rcases suffix_or_suffix hl with hab | hab
  · rcases suffix_separator ':' "replies".toList _ (':'::i.toList) (by decide) hab with hab | hab
    · refine absurd ?_ (h.command i s hi hs)
      simpa [EndsWith] using hab
    · simp at hab
  · rcases suffix_separator ':' "cmds".toList _ (':'::s.toList) (by decide) hab with hab | hab
    · exact not_suffix_colon _ _ (by simp) (serviceRe_noColon _ hs) hab
    · simp at hab

theorem Separable.unshared (h : Separable ids) (p p' key : String) (hk : Owns ids p key)
    (hk' : Owns ids p' key) : p=p' := by
  cases hk with
  | command s hs =>
    generalize he : commandStream p s=key at hk'
    cases hk' with
    | command s' hs' => exact (commandStream_injective p p' s s' hs hs' he).1
    | reply i hi => exact absurd he (h.apart p p' s i hs hi)
  | reply i hi =>
    generalize he : replyStream p i=key at hk'
    cases hk' with
    | command s hs => exact absurd he.symm (h.apart p' p s i hs hi)
    | reply i' hi' => exact (h.reply_injective p p' i i' hi hi' he).1

theorem Separable.deleted (h : Separable ids) (w : World) (p i p' key : String) (hi : ids i)
    (hk : Owns ids p' key) :
    (w.del (replyStream p i)).streams key=w.streams key ∨ p'=p ∧ key=replyStream p i := by
  by_cases he : key=replyStream p i
  · refine Or.inr ⟨?_,he⟩
    subst he
    exact h.unshared p' p _ hk (.reply i hi)
  · exact Or.inl (w.del_streams_of_ne _ _ he)

/-! ### Keys that meet -/

/- What stands before the inner separator is a prefix of its own. -/
theorem replyStream_eq_of_endsWith (p i i' : String) (h : EndsWith (":"++i) (":replies:"++i')) :
    ∃ p', p≠p' ∧ replyStream p i=replyStream p' i' := by
  obtain ⟨u,hu⟩ := h
  refine ⟨p++":replies"++String.ofList u,fun hp => ?_,String.toList_inj.mp ?_⟩
  · have := congrArg (fun s => s.toList.length) hp
    simp at this
  · have hu' : u++":replies:".toList++i'.toList = ':'::i.toList := by simpa using hu
    simp [replyStream]
    simpa using hu'.symm

theorem commandStream_eq_of_endsWith (p i s : String) (h : EndsWith (":"++i) (":cmds:"++s)) :
    ∃ p', commandStream p' s=replyStream p i := by
  obtain ⟨u,hu⟩ := h
  refine ⟨p++":replies"++String.ofList u,String.toList_inj.mp ?_⟩
  have hu' : u++":cmds:".toList++s.toList = ':'::i.toList := by simpa using hu
  simp [replyStream,commandStream]
  simpa using hu'

theorem Isolated.separable (h : Isolated ids) : Separable ids := by
  refine ⟨fun i i' hi hi' he => ?_,fun i s hi hs he => ?_⟩
  · obtain ⟨p',hne,heq⟩ := replyStream_eq_of_endsWith "" i i' he
    exact hne (h.reply "" p' i i' hi hi' heq).1
  · obtain ⟨p',heq⟩ := commandStream_eq_of_endsWith "" i s he
    exact h.apart p' "" s i hs hi heq

/-- Keys are isolated exactly when no id ends, from one of its colons or from its start on,
with a separator and the name of a service or of a client. -/
theorem isolated_iff (ids : String → Prop) : Isolated ids ↔ Separable ids := by
  refine ⟨Isolated.separable,fun h => ?_⟩
  exact ⟨commandStream_injective,h.reply_injective,h.apart,h.unshared,h.deleted⟩

end

/- So it is for ids without a colon, such as UUIDs. -/
theorem separable_of_noColon (ids : String → Prop) (h : ∀ i, ids i → ':'∉i.toList) :
    Separable ids := by
  refine ⟨fun i i' hi _ he => ?_,fun i s hi _ he => ?_⟩
  · have hs : ':'::("replies".toList++ ':'::i'.toList) <:+ ':'::i.toList := by
      simpa [EndsWith] using he
    exact not_suffix_colon _ _ (by simp) (h i hi) hs
  · have hs : ':'::("cmds".toList++ ':'::s.toList) <:+ ':'::i.toList := by
      simpa [EndsWith] using he
    exact not_suffix_colon _ _ (by simp) (h i hi) hs

/- Two clients of one reply stream, and a client that deletes the commands of another
deployment when it stops. -/
theorem not_isolated :
    replyStream "p" "x:replies:y"=replyStream "p:replies:x" "y" ∧
    (∀ w : World, (w.del (replyStream "p" "x:cmds:s")).streams (commandStream "p:replies:x" "s")=
      .empty) ∧
    ¬ Isolated fun id => ∃ lang given uuid, id=instanceIdOf lang given uuid := by
  have hc : commandStream "p:replies:x" "s"=replyStream "p" "x:cmds:s" := by decide
  refine ⟨by decide,fun w => ?_,fun h => ?_⟩
  · rw [hc]
    exact w.del_streams_self _
  · exact h.apart "p:replies:x" "p" "s" "x:cmds:s" (by decide) ⟨.ts,some "x:cmds:s","",rfl⟩ hc

end Clamator.Redis
