import KeyedBreaker.Log.Pipeline
import KeyedBreaker.Settings
import Mathlib.Data.List.Nodup

namespace KeyedBreaker

namespace Json

theorem member?_of_mem {members : List (String × Json)} (hn : (members.map (·.1)).Nodup)
    {member : String × Json} (h : member ∈ members) : member? member.1 members = some member.2 := by
  obtain ⟨found, hfound⟩ : ∃ found, members.reverse.find? (·.1 = member.1) = some found :=
    Option.isSome_iff_exists.1 (List.find?_isSome.2 ⟨member, List.mem_reverse.2 h, by simp⟩)
  have hname : found.1 = member.1 := by simpa using List.find?_some hfound
  have hmem : found ∈ members := List.mem_reverse.1 (List.mem_of_find?_eq_some hfound)
  rw [member?, hfound, List.inj_on_of_nodup_map hn hmem h hname]
  rfl

end Json

namespace Log.Level

theorem lookup_numbers (text : String) :
    numbers.lookup text = (ofName? text).map number := by
  have h : ∀ levels : List Level, (levels.map fun l => (l.name, l.number)).lookup text =
      (levels.find? (·.name = text)).map number := by
    intro levels
    induction levels with
    | nil => rfl
    | cons l levels ih =>
      by_cases hl : l.name = text
      · simp [hl]
      · have hb : (text == l.name) = false := beq_false_of_ne (Ne.symm hl)
        simp only [List.map_cons, List.lookup_cons, hb, List.find?_cons, hl, decide_false, ih]
  exact h all

theorem number?_eq_ofName? (text : String) : number? text = (ofName? (normalized text)).map number :=
  lookup_numbers _

theorem number?_name (level : Level) : number? level.name = some level.number := by
  cases level <;> decide +kernel

end Log.Level

namespace Settings

variable {given environment : List (String × Json)} {assigned : List (String × String)}

/-- Values for all settings, where the level is a text. -/
structure Values extends Limits where
  keyPrefix : String
  level : String

namespace Values

def named (v : Values) : List (String × Json) :=
  [("success_threshold", .int v.successThreshold), ("failure_threshold", .int v.failureThreshold),
    ("break_duration_seconds", .real v.breakDuration),
    ("sampling_duration_seconds", .real v.samplingDuration), ("failure_ratio", .real v.failureRatio),
    ("storage_key_prefix", .text v.keyPrefix), ("log_level", .text v.level)]

/-- The values are given by the names of their fields, in any order and any case. -/
def GivenBy (v : Values) (given : List (String × Json)) : Prop :=
  (given.map fun field => (Text.smalls field.1, field.2)).Perm v.named

variable {v : Values}

theorem GivenBy.unknownNames (h : v.GivenBy given) : unknownNames given = [] := by
  have hnames : ∀ field ∈ given, Text.smalls field.1 ∈ fieldNames := fun field hf =>
    List.mem_map_of_mem (f := fun member : String × Json => member.1)
      (h.subset (List.mem_map_of_mem (f := fun field : String × Json => (Text.smalls field.1, field.2)) hf))
  rw [Settings.unknownNames, List.map_eq_nil_iff, List.filter_eq_nil_iff]
  intro field hf
  simpa using hnames field hf

theorem GivenBy.value? (h : v.GivenBy given) {field : String × Json} (hf : field ∈ v.named) :
    value? given environment field.1 = some field.2 := by
  have hnamed : (v.named.map (·.1)).Nodup := show fieldNames.Nodup by decide
  have hn := (h.map (·.1)).nodup_iff.2 hnamed
  rw [Settings.value?, Json.member?_of_mem hn (h.mem_iff.2 hf)]
  rfl

theorem GivenBy.readField (h : v.GivenBy given) {name : String} {value : Json}
    (hf : (name, value) ∈ v.named) {α : Type} (default : α) (read : Json → Except Fault α) :
    readField (Settings.value? given environment) name default read = read value := by
  rw [Settings.readField, h.value? hf]

end Values

theorem readPrefix_text {keyPrefix : String} (h : ¬ keyPrefix.toList.all Text.isBlank = true) :
    readPrefix (.text keyPrefix) = .ok keyPrefix :=
  if_neg h

theorem readLevel_of_number? {text : String} {n : Int} (h : Log.Level.number? text = some n) :
    ∃ level : Log.Level, readLevel (.text text) = .ok level ∧ level.number = n := by
  rw [Log.Level.number?_eq_ofName?, Option.map_eq_some_iff] at h
  obtain ⟨level, hlevel, hn⟩ := h
  exact ⟨level, by rw [readLevel, hlevel], hn⟩

theorem readLevel_of_number?_none {text : String} (h : Log.Level.number? text = none) :
    readLevel (.text text) = .error .literal := by
  rw [Log.Level.number?_eq_ofName?, Option.map_eq_none_iff] at h
  rw [readLevel, h]

theorem check_toConfig (s : Settings) : s.toConfig.check = s.checkRules := rfl

/-- The value that the level is read from; without one it is the name of the default. -/
def levelSource (given : List (String × Json)) (assigned : List (String × String)) : Json :=
  (value? given (ofEnvironment assigned) "log_level").getD (.text Log.Level.info.name)

theorem readField_level (given : List (String × Json)) (assigned : List (String × String)) :
    readField (value? given (ofEnvironment assigned)) "log_level" .info readLevel =
      readLevel (levelSource given assigned) := by
  rw [readField, levelSource]
  cases value? given (ofEnvironment assigned) "log_level" with
  | none => decide +kernel
  | some value => rfl

theorem rules_of_read {s : Settings} (h : read given assigned = .ok s) :
    s.checkRules = .ok () ∧ readLevel (levelSource given assigned) = .ok s.logLevel := by
  simp only [read, readField_level] at h
  split at h
  · next hlevel _ =>
    split at h
    · next hrules =>
      cases h
      exact ⟨hrules, hlevel⟩
    · cases h
  · cases h

theorem number?_of_readLevel {value : Json} {level : Log.Level} (h : readLevel value = .ok level) :
    ∃ text, value = .text text ∧ Log.Level.number? text = some level.number := by
  cases value with
  | text text =>
    refine ⟨text, rfl, ?_⟩
    rw [Log.Level.number?_eq_ofName?]
    rw [readLevel] at h
    split at h
    · next hname =>
      cases h
      rw [hname]
      rfl
    · cases h
  | _ => cases h

/-- Settings that could be read configure what they say: breakers with limits that are accepted, and a
log at the level of the text that the settings were given, however it was written. -/
theorem configures_of_read {s : Settings} (h : read given assigned = .ok s) :
    s.toConfig.check = .ok () ∧ ∃ text, levelSource given assigned = .text text ∧
      ∀ json terminal context, ∃ p : Log.Pipeline,
        Log.Pipeline.ofLevel? s.logLevel.name json terminal context = some p ∧
          Log.Level.number? text = some p.threshold := by
  obtain ⟨hrules, hlevel⟩ := rules_of_read h
  obtain ⟨text, hsource, hnumber⟩ := number?_of_readLevel hlevel
  refine ⟨(check_toConfig s).trans hrules, text, hsource, fun json terminal context => ?_⟩
  refine ⟨⟨s.logLevel.number, Log.Renderer.select json terminal, context⟩, ?_, hnumber⟩
  rw [Log.Pipeline.ofLevel?, Log.Level.number?_name]
  rfl

variable {v : Values}

/-- Reading values that are given: their text of a level decides first, then the rules for the limits. -/
theorem read_of_given (assigned : List (String × String)) (h : v.GivenBy given)
    (hp : ¬ v.keyPrefix.toList.all Text.isBlank = true) :
    read given assigned = match readLevel (.text v.level) with
      | .error fault => .error [⟨some "log_level", fault⟩]
      | .ok level =>
        let s : Settings := ⟨v.successThreshold, v.failureThreshold, v.breakDuration, v.samplingDuration,
          v.failureRatio, v.keyPrefix, level⟩
        match v.check with
        | .ok () => .ok s
        | .error broken => .error [⟨none, .rule broken⟩] := by
  have hsuccesses : ("success_threshold", Json.int v.successThreshold) ∈ v.named := by simp [Values.named]
  have hfailures : ("failure_threshold", Json.int v.failureThreshold) ∈ v.named := by simp [Values.named]
  have hbreak : ("break_duration_seconds", Json.real v.breakDuration) ∈ v.named := by simp [Values.named]
  have hsampling : ("sampling_duration_seconds", Json.real v.samplingDuration) ∈ v.named := by
    simp [Values.named]
  have hratio : ("failure_ratio", Json.real v.failureRatio) ∈ v.named := by simp [Values.named]
  have hprefix : ("storage_key_prefix", Json.text v.keyPrefix) ∈ v.named := by simp [Values.named]
  have hlevel : ("log_level", Json.text v.level) ∈ v.named := by simp [Values.named]
  simp only [read, h.readField hsuccesses, h.readField hfailures, h.readField hbreak,
    h.readField hsampling, h.readField hratio, h.readField hprefix, h.readField hlevel, h.unknownNames,
    readInt, readReal, readPrefix_text hp]
  cases readLevel (.text v.level) with
  | ok level => rfl
  | error fault => rfl

/-- The five limits and the text of a level are accepted by the settings exactly if a breaker's
configuration accepts the limits and the text has a number as a level; limits that are refused break the same
rule on both sides. Settings that are accepted, from whatever source, configure breakers and the log without
error, with the same limits and with the number of the text as it was given. -/
theorem read_agrees (assigned : List (String × String)) (h : v.GivenBy given)
    (hp : ¬ v.keyPrefix.toList.all Text.isBlank = true) :
    ((Log.Level.number? v.level).isSome = true →
      ((∃ s, read given assigned = .ok s) ↔ v.check = .ok ()) ∧
      ∀ broken, read given assigned = .error [⟨none, .rule broken⟩] ↔ v.check = .error broken) ∧
    ((∃ problems, read given assigned = .error problems ∧
      ∃ problem ∈ problems, problem.field = some "log_level") ↔ Log.Level.number? v.level = none) ∧
    (∀ s, read given assigned = .ok s → s.toConfig.toLimits = v.toLimits ∧
      levelSource given assigned = .text v.level) ∧
    ∀ given' assigned' s, read given' assigned' = .ok s →
      s.toConfig.check = .ok () ∧ ∃ text, levelSource given' assigned' = .text text ∧
        ∀ json terminal context, ∃ p : Log.Pipeline,
          Log.Pipeline.ofLevel? s.logLevel.name json terminal context = some p ∧
            Log.Level.number? text = some p.threshold := by
  have hread := read_of_given assigned h hp
  refine ⟨fun hl => ?_, ?_, fun s hs => ?_, fun given' assigned' s hs => configures_of_read hs⟩
  · obtain ⟨n, hn⟩ := Option.isSome_iff_exists.1 hl
    obtain ⟨level, hlevel, -⟩ := readLevel_of_number? hn
    rw [hread, hlevel]
    cases v.check with
    | ok u => simp
    | error broken => simp
  · rw [hread]
    cases hn : Log.Level.number? v.level with
    | none => simp [readLevel_of_number?_none hn]
    | some n =>
      obtain ⟨level, hlevel, -⟩ := readLevel_of_number? hn
      rw [hlevel]
      cases v.check with
      | ok u => simp
      | error broken => simp
  · refine ⟨?_, ?_⟩
    · rw [hread] at hs
      split at hs
      · cases hs
      · split at hs
        · cases hs
          rfl
        · cases hs
    · have hlevel : ("log_level", Json.text v.level) ∈ v.named := by simp [Values.named]
      rw [levelSource, h.value? hlevel]
      rfl

/-- The default limits with a level between blanks, over an environment that names no level. -/
theorem read_agrees_warning :
    ∃ s, read (Values.named { keyPrefix := "orders:", level := " Warning" })
        [("CIRCUIT_BREAKER_LOG_LEVEL", "loud")] = .ok s ∧
      ∃ p : Log.Pipeline, Log.Pipeline.ofLevel? s.logLevel.name none true [] = some p ∧ p.threshold = 30 := by
  have hgiven : Values.GivenBy { keyPrefix := "orders:", level := " Warning" }
      (Values.named { keyPrefix := "orders:", level := " Warning" }) :=
    List.Perm.of_eq (by rfl)
  have hprefix : ¬ "orders:".toList.all Text.isBlank = true := by decide
  have hnumber : Log.Level.number? " Warning" = some 30 := by decide +kernel
  obtain ⟨haccepts, -, hsource, hconfigures⟩ :=
    read_agrees [("CIRCUIT_BREAKER_LOG_LEVEL", "loud")] hgiven hprefix
  have hlimits : Limits.check {} = .ok () := by decide +kernel
  obtain ⟨s, hs⟩ := (haccepts (by rw [hnumber]; rfl)).1.2 hlimits
  obtain ⟨-, text, htext, hpipelines⟩ := hconfigures _ _ s hs
  obtain ⟨p, hp, hthreshold⟩ := hpipelines none true []
  have hsame : text = " Warning" := Json.text.inj (htext.symm.trans (hsource s hs).2)
  rw [hsame, hnumber] at hthreshold
  exact ⟨s, hs, p, hp, (Option.some.inj hthreshold).symm⟩

end Settings

end KeyedBreaker
