import Clamator.Base.Assoc
import Clamator.Redis.ServerLoop

/-!
# An entry by the names of its fields

Redis keeps an entry as pairs of a name and a value, and Python reads it so.
TypeScript searches names and values alike; on a legible field list it finds
the same values.
-/

namespace Clamator.Redis
open Clamator.Base Clamator.Protocol

def namedField (fields : List Bulk) (name : String) : Option Bulk := (fieldPairs fields).lookup name

/-- The `reply-to` field that is not empty. -/
def namedReplyTo (fields : List Bulk) : Option String :=
  ((namedField fields "reply-to").map Bulk.text).filter (· != "")

/-- The value is the text of an envelope, for the parser of that language. -/
def Decodes : Lang → Bulk → Prop
  | .ts,value => ∃ d env, value.doc=some d ∧ readEnvelope d=.ok env
  | .py,value => ∃ d env, value.doc=some d ∧ pyReadEnvelope d=.ok env

/-- The `envelope` field is missing, empty or not the text of an envelope. -/
def Undecodable (lang : Lang) (fields : List Bulk) : Prop :=
  ∀ value, namedField fields "envelope"=some value → value.text≠"" → ¬Decodes lang value

/-- No value before the field of that name spells the name, and no later field has it again. -/
def Legible (name : String) : List Bulk → Prop
  | field::value::fields => if field.text=name then namedField fields name=none
    else value.text≠name ∧ Legible name fields
  | [field] => field.text≠name
  | [] => True

/-- What TypeScript needs to read the two fields by name. -/
def ByName (lang : Lang) (fields : List Bulk) : Prop :=
  lang=.ts → Legible "envelope" fields ∧ Legible "reply-to" fields

theorem namedField_cons (field value : Bulk) (fields : List Bulk) (name : String) :
    namedField (field::value::fields) name=
      (namedField fields name).or (if name=field.text then some value else none) := by
  unfold namedField
  rw [fieldPairs,List.lookup_append,Assoc.lookup_single]

theorem fieldAfter_cons (field value : Bulk) (fields : List Bulk) (name : String)
    (hf : field.text≠name) (hv : value.text≠name) :
    fieldAfter (field::value::fields) name=fieldAfter fields name := by
  unfold fieldAfter
  rw [List.findIdx?_cons,List.findIdx?_cons]
  simp only [beq_eq_false_iff_ne.mpr hf,beq_eq_false_iff_ne.mpr hv,Bool.false_eq_true,if_false,
    Option.map_map]
  rfl

/- Where the list is legible, the string after the name is the value of the field. -/
theorem fieldAfter_legible (name : String) : ∀ fields : List Bulk, Legible name fields →
    fieldAfter fields name=(namedField fields name).map some
  | [],_ => rfl
  | [field],h => by
    unfold Legible at h
    simp [fieldAfter,namedField,fieldPairs,List.findIdx?_cons,beq_eq_false_iff_ne.mpr h]
  | field::value::fields,h => by
    unfold Legible at h
    rw [namedField_cons]
    by_cases hf : field.text=name
    · rw [if_pos hf] at h
      rw [h,if_pos hf.symm]
      simp [fieldAfter,List.findIdx?_cons,hf]
    · rw [if_neg hf] at h
      rw [fieldAfter_cons field value fields name hf h.1,fieldAfter_legible name fields h.2,
        if_neg (Ne.symm hf),Option.or_none]

/- An entry that a server acks undispatched has no envelope for its parser. -/
theorem inspect_undecodable {lang : Lang} {fields : List Bulk} (hn : ByName lang fields)
    (h : inspect lang fields=.ack) : Undecodable lang fields := by
  intro value hv hne hd
  cases lang with
  | ts =>
    obtain ⟨d,env,hdoc,henv⟩ := hd
    have hf := fieldAfter_legible "envelope" fields (hn rfl).1
    simp only [inspect,readEntry,hf,hv,Option.map_some,Option.bind_some,hdoc,henv] at h
    cases h
  | py =>
    obtain ⟨d,env,hdoc,henv⟩ := hd
    have hf : getField fields "envelope"=some value := by
      unfold namedField at hv
      simp [getField,hv,hne]
    simp only [inspect,pyReadEntry,hf,hdoc,henv] at h
    split at h <;> cases h

/- An entry that it dispatches is answered where the `reply-to` field says. -/
theorem inspect_replyTo {lang : Lang} {fields : List Bulk} {replyTo : Option String}
    (hn : ByName lang fields) (h : inspect lang fields=.dispatch replyTo) :
    replyTo=namedReplyTo fields := by
  cases lang with
  | ts =>
    have hf := fieldAfter_legible "reply-to" fields (hn rfl).2
    have htruthy : truthy ((fieldAfter fields "reply-to").join.map Bulk.text)=namedReplyTo fields := by
      rw [hf,namedReplyTo]
      cases namedField fields "reply-to" with
      | none => rfl
      | some value =>
        by_cases he : value.text=""
        · simp [truthy,he,Option.filter]
        · simp [truthy,he,Option.filter]
    obtain ⟨env,henv⟩ := Reading.inspection_dispatch h
    obtain ⟨_,_,_,_,_,rfl⟩ := readEntry_decoded henv
    exact htruthy
  | py =>
    have hf : (getField fields "reply-to").map Bulk.text=namedReplyTo fields := by
      unfold getField namedReplyTo namedField
      cases (fieldPairs fields).lookup "reply-to" with
      | none => rfl
      | some value => by_cases he : value.text="" <;> simp [he,Option.filter]
    obtain ⟨env,henv⟩ := Reading.inspection_dispatch h
    obtain ⟨_,_,_,_,_,rfl⟩ := pyReadEntry_decoded henv
    exact hf

end Clamator.Redis
