import KeyedBreaker.Log.Helper

namespace KeyedBreaker.Log

namespace Emission

def level : Emission → Level
  | .entry method .. => method.level
  | .record _ level .. => level

def event : Emission → String
  | .entry _ event _ => event
  | .record _ _ message .. => message

def fields : Emission → Fields
  | .entry _ _ fields => fields
  | .record _ _ _ extra _ => extra

def hasException : Emission → Bool
  | .entry method .. => method = .exception
  | .record _ _ _ _ hasException => hasException

/-- It is the event as the method was given it, fields apart. -/
structure Tells (e : Emission) (method : Method) (event : String) : Prop where
  level : e.level = method.level
  event : e.event = event
  hasException : e.hasException = true ↔ method = .exception

end Emission

namespace Fields

def Free (fields : Fields) : Prop := ∀ field ∈ fields, field.1 ∉ reservedNames

/-- Names of parameters on the way to a logger, and of an attribute that later interpreters give to a
record: a field cannot have them with every logger. -/
def takenNames : List String := ["logger", "level", "event", "self", "taskName"]

/-- Fields that every logger can be given by their names. -/
structure Givable (fields : Fields) : Prop where
  free : Free fields
  untaken : ∀ field ∈ fields, field.1 ∉ takenNames

theorem Free.find?_eq_none {fields : Fields} (h : Free fields) :
    (fields.find? fun field => reservedNames.contains field.1) = none :=
  List.find?_eq_none.2 fun field hf => by simpa using h field hf

end Fields

namespace Logger

variable {l : Logger} {method : Method} {event : String} {fields : Fields}

/-- The level of the logger lets the method through. -/
def Lets : Logger → Method → Prop
  | .structured, _ => True
  | .standard _ threshold, method => threshold ≤ method.level.number
  | .adapter _ threshold _, method => threshold ≤ method.level.number

def carried : Logger → Fields → Fields
  | .adapter _ _ extra, _ => extra.getD []
  | _, fields => fields

theorem standardRecord_of_lt {name : String} {threshold : Int} (h : method.level.number < threshold) :
    standardRecord name threshold method event fields = .ok [] :=
  if_pos h

theorem standardRecord_of_le {name : String} {threshold : Int} (h : threshold ≤ method.level.number)
    (hf : Fields.Free fields) :
    ∃ e : Emission, standardRecord name threshold method event fields = .ok [e] ∧
      e.Tells method event ∧ e.fields = fields := by
  refine ⟨.record name method.level event fields (method = .exception), ?_,
    ⟨rfl, rfl, by simp [Emission.hasException]⟩, rfl⟩
  rw [standardRecord, if_neg (Int.not_lt.2 h), hf.find?_eq_none]

/-- A record that would overwrite one of its attributes is not made, whatever the other fields are. -/
theorem standardRecord_of_not_free {name : String} {threshold : Int}
    (h : threshold ≤ method.level.number) (hf : ¬ Fields.Free fields) :
    ∃ r : ReservedField, r.name ∈ reservedNames ∧ r.name ∈ fields.map (·.1) ∧
      standardRecord name threshold method event fields = .error r := by
  cases hr : fields.find? fun field => reservedNames.contains field.1 with
  | none =>
    exact absurd (fun field hm => by simpa using List.find?_eq_none.1 hr field hm) hf
  | some field =>
    refine ⟨⟨field.1⟩, by simpa using List.find?_some hr,
      List.mem_map_of_mem (List.mem_of_find?_eq_some hr), ?_⟩
    rw [standardRecord, if_neg (Int.not_lt.2 h), hr]

theorem log_of_not_lets (h : ¬ l.Lets method) : l.log method event fields = .ok [] := by
  cases l with
  | structured => exact absurd trivial h
  | standard name threshold => exact standardRecord_of_lt (Int.not_le.1 h)
  | adapter name threshold extra => exact standardRecord_of_lt (Int.not_le.1 h)

theorem log_of_lets (event : String) (fields : Fields) (h : l.Lets method)
    (hf : Fields.Free (l.carried fields)) :
    ∃ e : Emission, l.log method event fields = .ok [e] ∧ e.Tells method event ∧
      e.fields = l.carried fields := by
  cases l with
  | structured =>
    exact ⟨.entry method event fields, rfl, ⟨rfl, rfl, by simp [Emission.hasException]⟩, rfl⟩
  | standard name threshold => exact standardRecord_of_le h hf
  | adapter name threshold extra => exact standardRecord_of_le h hf

/-- Fields with names of their own: a logger whose level lets an event through emits it once, with the
level of the method and with every field, unless it is an adapter. An adapter emits it just as well where
its own fields can be logged, but carries those, so that the fields of the event arrive exactly if they are
among them. -/
theorem fields_arrive (event : String) (hf : Fields.Givable fields) (h : l.Lets method) :
    ((∀ name threshold extra, l ≠ .adapter name threshold extra) →
      ∃ e : Emission, l.log method event fields = .ok [e] ∧ e.Tells method event ∧
        e.fields = fields) ∧
    ∀ name threshold extra, l = .adapter name threshold extra →
      (Fields.Free (extra.getD []) →
        ∃ e : Emission, l.log method event fields = .ok [e] ∧ e.Tells method event ∧
          (fields ⊆ e.fields ↔ fields ⊆ extra.getD [])) ∧
      (¬ Fields.Free (extra.getD []) → ∃ r : ReservedField, r.name ∈ reservedNames ∧
        r.name ∈ (extra.getD []).map (·.1) ∧ l.log method event fields = .error r) := by
  refine ⟨fun hl => ?_, ?_⟩
  · have hc : l.carried fields = fields := by
      cases l with
      | structured => rfl
      | standard name threshold => rfl
      | adapter name threshold extra => exact absurd rfl (hl name threshold extra)
    obtain ⟨e, he, ht, hfields⟩ := log_of_lets event fields h (hc.symm ▸ hf.free)
    exact ⟨e, he, ht, hfields.trans hc⟩
  · rintro name threshold extra rfl
    refine ⟨fun hx => ?_, fun hx => standardRecord_of_not_free h hx⟩
    obtain ⟨e, he, ht, hfields⟩ := log_of_lets event fields h hx
    exact ⟨e, he, ht, by rw [hfields]; rfl⟩

/-- An adapter with a field of its own, which the event has too. -/
theorem fields_arrive_through_adapter :
    Fields.Givable [("region", .text "eu")] ∧
      (Logger.adapter "app" 20 (some [("region", .text "eu"), ("zone", .int 2)])).Lets .warning ∧
      ∃ e : Emission,
        (Logger.adapter "app" 20 (some [("region", .text "eu"), ("zone", .int 2)])).log .warning "slow"
            [("region", .text "eu")] = .ok [e] ∧
          e.Tells .warning "slow" ∧ [("region", .text "eu")] ⊆ e.fields := by
  have hf : Fields.Givable [("region", .text "eu")] :=
    ⟨by simp [Fields.Free, reservedNames], by simp [Fields.takenNames]⟩
  have hl : (Logger.adapter "app" 20 (some [("region", .text "eu"), ("zone", .int 2)])).Lets .warning :=
    show (20 : Int) ≤ 30 by decide
  have hx : Fields.Free [("region", .text "eu"), ("zone", .int 2)] := by simp [Fields.Free, reservedNames]
  obtain ⟨e, he, ht, hi⟩ := ((fields_arrive "slow" hf hl).2 _ _ _ rfl).1 hx
  exact ⟨hf, hl, e, he, ht, hi.2 (by simp)⟩

/-- An adapter without fields of its own emits an event without those that it is given. -/
theorem adapter_loses_fields :
    ¬ ∀ (l : Logger) (method : Method) (event : String) (fields : Fields), Fields.Givable fields →
      l.Lets method → ∃ e : Emission, l.log method event fields = .ok [e] ∧ e.Tells method event ∧
        fields ⊆ e.fields := by
  intro h
  have hf : Fields.Givable [("a", .int 1)] :=
    ⟨by simp [Fields.Free, reservedNames], by simp [Fields.takenNames]⟩
  have hl : (Logger.adapter "t" 0 none).Lets .info := show (0 : Int) ≤ 20 by decide
  obtain ⟨e, he, -, hsub⟩ := h _ _ "e" _ hf hl
  have hfields : e.fields = [] := by
    cases he
    rfl
  rw [hfields] at hsub
  exact List.cons_ne_nil _ _ (List.subset_nil.1 hsub)

end Logger

end KeyedBreaker.Log
