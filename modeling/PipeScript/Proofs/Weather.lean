import PipeScript.Proofs.Numeral
import PipeScript.Weather

/-!
# Weather reports feed conditions

A condition that asks for `rain` or `temp` looks the number up in the text of a report. On a report
whose current temperatures are finite it finds the first known chance of rain, and the temperature
without decimals, if the name of the place mentions no anchor of the field (`resolve_weather_report`).

The name stands in the title, above all numbers of the report. Where it mentions an anchor, the
title is the line that is looked at: a place called Rainham is asked for its chance of rain in vain
(`resolve_rainham`).
-/

namespace PipeScript.Weather

open Text Text.Casing Numeral

variable {location : String} {f : Forecast}

/-! ### The lines of a report -/

/-- The line with the current temperature. -/
def temperatureLine (f : Forecast) : String :=
  "- **Temperature:** " ++ temperature f.current.temperature ++ " (feels like " ++
    temperature f.current.feelsLike ++ ")"

/-- The line with the chance of rain. -/
def rainLine (f : Forecast) : String := "- **Rain%:** " ++ toString (nextRain f) ++ "% (next hours)"

theorem exists_report (location : String) (f : Forecast) :
    ∃ rest ≠ [], report location f = "\n".intercalate (("# Weather for " ++ location) ::
      (["", "## Current Conditions"] ++ temperatureLine f :: rainLine f :: rest)) ++ "\n" := by
  refine ⟨s!"- **Condition:** {condition (some f.current.code)}" ::
    s!"- **Humidity:** {f.current.humidity}%" ::
    s!"- **Wind:** {Binary64.toFixed 0 f.current.windSpeed} mph {compassPoint f.current.windDirection}"
    :: dayLines f.daily, List.cons_ne_nil _ _, rfl⟩

/-- The title mentions what the name of the place mentions, of all subjects of one word. -/
theorem any_mentions_title {subjects : List String} (h : ∀ a ∈ subjects, IsPlain a.toList ∧
      ' ' ∉ lower a.toList ∧ mentions "# Weather for".toList a.toList = false)
    (location : String) :
    (subjects.any fun a => mentions ("# Weather for " ++ location).toList a.toList) =
      subjects.any fun a => mentions location.toList a.toList := by
  have htitle : ("# Weather for " ++ location).toList =
      "# Weather for".toList ++ ' ' :: location.toList := by simp
  induction subjects with
  | nil => rfl
  | cons a subjects ih =>
    obtain ⟨⟨hplain, hspace, hwords⟩, h⟩ := List.forall_mem_cons.mp h
    rw [List.any_cons, List.any_cons, ih h, htitle,
      mentions_append_cons hplain (by decide) hspace, hwords, Bool.false_or]

/-- The title has no number but that of the name of the place. -/
theorem first_title (location : String) :
    first ("# Weather for " ++ location).toList = first location.toList := by
  rw [String.toList_append]
  exact firstAfter_words (by decide) (by decide) _

/-! The two lines with numbers are words with printed numerals between them. -/

theorem toList_temperatureLine (f : Forecast) : (temperatureLine f).toList =
    "- **Temperature:** ".toList ++ (Binary64.toFixed 0 f.current.temperature).toList ++
      ("°F".toList ++ (" (feels like ".toList ++
        ((Binary64.toFixed 0 f.current.feelsLike).toList ++ ("°F".toList ++ ")".toList)))) := by
  have hassoc (a b c d e g : List Char) :
      a ++ (b ++ c) ++ d ++ (e ++ c) ++ g = a ++ b ++ (c ++ (d ++ (e ++ (c ++ g)))) := by simp
  show (_ ++ temperature f.current.temperature ++ _ ++ temperature f.current.feelsLike ++ _).toList
    = _
  simp only [temperature, String.toList_append]
  exact hassoc _ _ _ _ _ _

theorem toList_rainLine (f : Forecast) : (rainLine f).toList =
    "- **Rain%:** ".toList ++ (toString (nextRain f)).toList ++ "% (next hours)".toList := by
  simp [rainLine]

theorem first_temperatureLine (ht : f.current.temperature.IsFinite) :
    first (temperatureLine f).toList = (Binary64.toFixed 0 f.current.temperature).toList := by
  rw [toList_temperatureLine]
  exact first_printed (by decide) (by decide) (isPrinted_toFixed 0 ht)
    (EndsNumeral.append (by decide) (by decide) _)

theorem first_rainLine (f : Forecast) :
    first (rainLine f).toList = (toString (nextRain f)).toList := by
  rw [toList_rainLine]
  exact first_printed (by decide) (by decide) (isPrinted_toString_int _) (by decide)

theorem newline_not_mem_temperatureLine (ht : f.current.temperature.IsFinite)
    (hf : f.current.feelsLike.IsFinite) : '\n' ∉ (temperatureLine f).toList := by
  have hnot : ¬ IsNumeralChar '\n' := by decide
  simp only [toList_temperatureLine, List.mem_append, not_or]
  exact ⟨⟨by decide, (isPrinted_toFixed 0 ht).not_mem hnot⟩, by decide, by decide,
    (isPrinted_toFixed 0 hf).not_mem hnot, by decide, by decide⟩

theorem newline_not_mem_rainLine (f : Forecast) : '\n' ∉ (rainLine f).toList := by
  simp only [toList_rainLine, List.mem_append, not_or]
  exact ⟨⟨by decide, (isPrinted_toString_int _).not_mem (by decide)⟩, by decide⟩

/-- The temperatures say nothing of rain: all the anchors of rain have an `n`. -/
theorem not_mentions_temperatureLine (ht : f.current.temperature.IsFinite)
    (hf : f.current.feelsLike.IsFinite) {subject : List Char} (h : IsPlain subject)
    (hn : 'n' ∈ lower subject) : mentions (temperatureLine f).toList subject = false := by
  have hnot : ¬ IsNumeralChar 'n' := by decide
  refine not_mentions h hn ?_
  simp only [toList_temperatureLine, fold_append, fold_printed (isPrinted_toFixed 0 ht),
    fold_printed (isPrinted_toFixed 0 hf), List.mem_append, not_or]
  exact ⟨⟨by decide, (isPrinted_toFixed 0 ht).not_mem hnot⟩, by decide +kernel, by decide,
    (isPrinted_toFixed 0 hf).not_mem hnot, by decide +kernel, by decide⟩

/-! ### What conditions find -/

theorem newline_not_mem_title (h : '\n' ∉ location.toList) :
    '\n' ∉ ("# Weather for " ++ location).toList := by
  rw [String.toList_append, List.mem_append, not_or]
  exact ⟨by decide, h⟩

/-- Above the numbers there is nothing that an anchor occurs in, but for the title. -/
theorem passes_opening {anchors : List (List Char)} (h : ∀ a ∈ anchors, IsPlain a ∧
      mentions "## Current Conditions".toList a = false) :
    ∀ l ∈ ["", "## Current Conditions"],
      '\n' ∉ l.toList ∧ ∀ a ∈ anchors, mentions l.toList a = false := by
  simp only [List.forall_mem_cons]
  exact ⟨⟨by decide, fun a ha => not_mentions_nil (h a ha).1⟩,
    ⟨by decide, fun a ha => (h a ha).2⟩, by simp⟩

/-- The names of the chance of rain. -/
def rainNames : List String := ["rain", "rain%", "rain_chance", "precipitation"]

/-- What stands on the line with the chance of rain. -/
def rainAnchors : List String := ["Rain%", "rain", "precipitation", "chance of rain"]

/-- The names of the temperature. -/
def temperatureNames : List String := ["temp", "temperature"]

/-- What stands on the line with the temperature. -/
def temperatureAnchors : List String := ["Temperature:", "temperature", "°F", "°C"]

theorem rain_known : (rainNames, rainAnchors) ∈ Condition.knownFields := by decide

theorem temperature_known : (temperatureNames, temperatureAnchors) ∈ Condition.knownFields := by
  decide

variable {field : String}

/-- `rain` is the chance of rain, unless the name of the place mentions an anchor. -/
theorem resolve_rain (hlocation : '\n' ∉ location.toList) (ht : f.current.temperature.IsFinite)
    (hf : f.current.feelsLike.IsFinite) (hfield : Condition.Names rainNames field) :
    Condition.resolve field (report location f) [] =
      if ["rain", "precipitation"].any fun a => mentions location.toList a.toList then
        String.ofList (first location.toList)
      else toString (nextRain f) := by
  obtain ⟨rest, hrest, hreport⟩ := exists_report location f
  have htitle := (any_mentions_eq rainAnchors ["rain", "precipitation"] (by decide) (by decide)
    _).trans (any_mentions_title (by decide) location)
  have hplain : ∀ a ∈ rainAnchors.map String.toList, IsPlain a ∧ 'n' ∈ lower a ∧
      mentions "## Current Conditions".toList a = false := by decide
  have hbefore := List.forall_mem_append.mpr
    ⟨passes_opening fun a ha => ⟨(hplain a ha).1, (hplain a ha).2.2⟩,
      List.forall_mem_singleton.mpr ⟨newline_not_mem_temperatureLine ht hf, fun a ha =>
        not_mentions_temperatureLine ht hf (hplain a ha).1 (hplain a ha).2.1⟩⟩
  have hhit : ∃ a ∈ rainAnchors.map String.toList, mentions (rainLine f).toList a = true := by
    refine ⟨"Rain%".toList, by decide, ?_⟩
    rw [toList_rainLine, List.append_assoc]
    exact mentions_append_left (by decide) (by decide) _
  have hfound := anchored_titled (newline_not_mem_title hlocation) hbefore
    (newline_not_mem_rainLine f) hhit hrest "\n".toList
  rw [List.append_assoc, List.singleton_append, htitle, first_title, first_rainLine] at hfound
  rw [Condition.resolve_of_names rain_known hfield, hreport, String.toList_append, hfound,
    apply_ite String.ofList, String.ofList_toList]

/-- `temp` is the temperature, unless the name of the place mentions an anchor. -/
theorem resolve_temperature (hlocation : '\n' ∉ location.toList)
    (ht : f.current.temperature.IsFinite) (hf : f.current.feelsLike.IsFinite)
    (hfield : Condition.Names temperatureNames field) :
    Condition.resolve field (report location f) [] =
      if ["temperature", "°F", "°C"].any fun a => mentions location.toList a.toList then
        String.ofList (first location.toList)
      else Binary64.toFixed 0 f.current.temperature := by
  obtain ⟨rest, hrest, hreport⟩ := exists_report location f
  have htitle := (any_mentions_eq temperatureAnchors ["temperature", "°F", "°C"] (by decide)
    (by decide) _).trans (any_mentions_title (by decide) location)
  have hhit : ∃ a ∈ temperatureAnchors.map String.toList,
      mentions (temperatureLine f).toList a = true := by
    refine ⟨"Temperature:".toList, by decide, ?_⟩
    rw [toList_temperatureLine, List.append_assoc]
    exact mentions_append_left (by decide) (by decide) _
  have hfound := anchored_titled (newline_not_mem_title hlocation) (passes_opening (by decide))
    (newline_not_mem_temperatureLine ht hf) hhit (List.cons_ne_nil (rainLine f) rest) "\n".toList
  rw [htitle, first_title, first_temperatureLine ht] at hfound
  rw [Condition.resolve_of_names temperature_known hfield, hreport, String.toList_append, hfound,
    apply_ite String.ofList, String.ofList_toList]

/-- **Conditions on a weather report.** The chance of rain is the first one that is known, and the
temperature the current one without decimals. A name of a place that mentions an anchor of the field
is searched in their place. -/
theorem resolve_weather_report (hlocation : '\n' ∉ location.toList)
    (ht : f.current.temperature.IsFinite) (hf : f.current.feelsLike.IsFinite) :
    (∀ field, Condition.Names rainNames field →
      Condition.resolve field (report location f) [] =
        if ["rain", "precipitation"].any fun a => mentions location.toList a.toList then
          String.ofList (first location.toList)
        else toString ((f.hourly.rainChances.filterMap id).head?.getD 0)) ∧
    ∀ field, Condition.Names temperatureNames field →
      Condition.resolve field (report location f) [] =
        if ["temperature", "°F", "°C"].any fun a => mentions location.toList a.toList then
          String.ofList (first location.toList)
        else Binary64.toFixed 0 f.current.temperature := by
  have hrain : (f.hourly.rainChances.filterMap id).head?.getD 0 = nextRain f := by
    rw [List.head?_filterMap]
    rfl
  rw [hrain]
  exact ⟨fun _ => resolve_rain hlocation ht hf, fun _ => resolve_temperature hlocation ht hf⟩

/-- A forecast with a chance of rain from the second hour on. -/
def showers : Forecast where
  current := ⟨72, 70, 50, 3, 5, 270⟩
  hourly := ⟨["07:00", "08:00"], [none, some 40]⟩
  daily := {}

theorem resolve_leeds :
    Condition.resolve "rain" (report "Leeds" showers) [] = "40" ∧
      Condition.resolve "Temp" (report "Leeds" showers) [] = "72" := by
  obtain ⟨hrain, htemperature⟩ := @resolve_weather_report "Leeds" showers (by decide) (by decide +kernel)
    (by decide +kernel)
  exact ⟨(hrain "rain" (by decide)).trans (by decide +kernel),
    (htemperature "Temp" (by decide)).trans (by decide +kernel)⟩

/-- The title of the report on Rainham is taken for the line with the chance of rain. -/
theorem resolve_rainham :
    '\n' ∉ "Rainham".toList ∧ showers.current.temperature.IsFinite ∧
      showers.current.feelsLike.IsFinite ∧ Condition.Names rainNames "rain" ∧
      toString ((showers.hourly.rainChances.filterMap id).head?.getD 0) = "40" ∧
      Condition.resolve "rain" (report "Rainham" showers) [] = "0" :=
  ⟨by decide, by decide +kernel, by decide +kernel, by decide, by decide, by decide +kernel⟩

end PipeScript.Weather
