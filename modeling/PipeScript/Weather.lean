import PipeScript.Binary64.Fixed
import PipeScript.Validation

/-!
# Weather

The answers of the place search and of the forecast service, and the report that is made of them:
the current conditions and a table of the coming days.
-/

namespace PipeScript

/-- A place that a search found. -/
structure Place where
  name : String
  latitude : Binary64
  longitude : Binary64
  country : Option String
  region : Option String
deriving DecidableEq, Repr

/-- The conditions now. -/
structure CurrentWeather where
  temperature : Binary64
  feelsLike : Binary64
  humidity : Int
  code : Int
  windSpeed : Binary64
  windDirection : Int
deriving DecidableEq, Repr

/-- The coming hours. -/
structure HourlyWeather where
  times : List String := []
  rainChances : List (Option Int) := []
deriving DecidableEq, Repr

/-- The coming days. -/
structure DailyWeather where
  days : List String := []
  codes : List (Option Int) := []
  highs : List (Option Binary64) := []
  lows : List (Option Binary64) := []
  rainChances : List (Option Int) := []
deriving DecidableEq, Repr

/-- A forecast. -/
structure Forecast where
  current : CurrentWeather
  hourly : HourlyWeather
  daily : DailyWeather
deriving DecidableEq, Repr

namespace Place

/-- The place with its region and country, where they are known. -/
def displayName (p : Place) : String :=
  ", ".intercalate (p.name :: ([p.region, p.country].filterMap id).filter (!·.isEmpty))

/-- Read a place. -/
def ofFields (fields : Json.Fields) : Checked Place :=
  let text (name : String) := Rule.defaulted name (Rule.optional Rule.string) none fields
  Checked.ap (Checked.ap (Checked.ap (Checked.ap
    ((Rule.required "name" Rule.string fields).map Place.mk)
    (Rule.required "latitude" (Rule.number .data) fields))
    (Rule.required "longitude" (Rule.number .data) fields))
    (text "country"))
    (text "admin1")

/-- Read one place. -/
def ofJson : Json → Checked Place := Rule.record "GeocodeResult" ofFields

/-- Read the answer of a search: a list of places, where anything empty stands for no place. -/
def listOfJson : Json → Checked (List Place) :=
  Rule.record "GeocodeResponse" fun fields =>
    Rule.defaulted "results"
      (fun v => if v.isTruthy then Rule.list ofJson v else .ok []) [] fields

end Place

/-- Read the current conditions. -/
def CurrentWeather.ofJson : Json → Checked CurrentWeather :=
  Rule.record "CurrentWeather" fun fields =>
    let whole (name : String) := Rule.defaulted name Rule.integer 0 fields
    Checked.ap (Checked.ap (Checked.ap (Checked.ap (Checked.ap
      ((Rule.required "temperature_2m" (Rule.number .data) fields).map CurrentWeather.mk)
      (Rule.required "apparent_temperature" (Rule.number .data) fields))
      (whole "relative_humidity_2m"))
      (whole "weather_code"))
      (Rule.defaulted "wind_speed_10m" (Rule.number .data) 0 fields))
      (whole "wind_direction_10m")

/-- Read the coming hours. -/
def HourlyWeather.ofJson : Json → Checked HourlyWeather :=
  Rule.record "HourlyWeather" fun fields =>
    Checked.ap
      ((Rule.defaulted "time" (Rule.list Rule.string) [] fields).map HourlyWeather.mk)
      (Rule.defaulted "precipitation_probability" (Rule.list (Rule.optional Rule.integer)) []
        fields)

/-- Read the coming days. -/
def DailyWeather.ofJson : Json → Checked DailyWeather :=
  Rule.record "DailyWeather" fun fields =>
    let wholes (name : String) :=
      Rule.defaulted name (Rule.list (Rule.optional Rule.integer)) [] fields
    let numbers (name : String) :=
      Rule.defaulted name (Rule.list (Rule.optional (Rule.number .data))) [] fields
    Checked.ap (Checked.ap (Checked.ap (Checked.ap
      ((Rule.defaulted "time" (Rule.list Rule.string) [] fields).map DailyWeather.mk)
      (wholes "weather_code"))
      (numbers "temperature_2m_max"))
      (numbers "temperature_2m_min"))
      (wholes "precipitation_probability_max")

/-- Read a forecast. -/
def Forecast.ofJson : Json → Checked Forecast :=
  Rule.record "ForecastResponse" fun fields =>
    Checked.ap (Checked.ap
      ((Rule.required "current" CurrentWeather.ofJson fields).map Forecast.mk)
      (Rule.defaulted "hourly" HourlyWeather.ofJson {} fields))
      (Rule.defaulted "daily" DailyWeather.ofJson {} fields)

namespace Weather

/-- What the weather codes of the World Meteorological Organization mean. -/
def conditions : List (Int × String) := [
  (0, "Clear sky"), (1, "Mainly clear"), (2, "Partly cloudy"), (3, "Overcast"),
  (45, "Fog"), (48, "Depositing rime fog"),
  (51, "Light drizzle"), (53, "Moderate drizzle"), (55, "Dense drizzle"),
  (56, "Light freezing drizzle"), (57, "Dense freezing drizzle"),
  (61, "Slight rain"), (63, "Moderate rain"), (65, "Heavy rain"),
  (66, "Light freezing rain"), (67, "Heavy freezing rain"),
  (71, "Slight snow"), (73, "Moderate snow"), (75, "Heavy snow"), (77, "Snow grains"),
  (80, "Slight rain showers"), (81, "Moderate rain showers"), (82, "Violent rain showers"),
  (85, "Slight snow showers"), (86, "Heavy snow showers"),
  (95, "Thunderstorm"), (96, "Thunderstorm with slight hail"), (99, "Thunderstorm with heavy hail")]

/-- The words for a weather code. -/
def condition (code : Option Int) : String :=
  match code with
  | none => "Unknown"
  | some c =>
    match conditions.find? fun k => k.1 == c with
    | some (_, words) => words
    | none => s!"Unknown ({c})"

/-- The compass points, clockwise from the north. -/
def compassPoints : List String :=
  ["N", "NNE", "NE", "ENE", "E", "ESE", "SE", "SSE",
    "S", "SSW", "SW", "WSW", "W", "WNW", "NW", "NNW"]

/-- The compass point that a direction in degrees is reported as: sectors of 22 degrees, the first
one around the north. -/
def compassPoint (degrees : Int) : String :=
  compassPoints.getD (((degrees + 11).fdiv 22).fmod 16).toNat ""

/-- A temperature without decimals. -/
def temperature (t : Binary64) : String := Binary64.toFixed 0 t ++ "°F"

/-- A temperature that may be unknown. -/
def temperatureOrDash : Option Binary64 → String
  | none => "-"
  | some t => temperature t

/-- The chance of rain in the next hours: the first one that is known. -/
def nextRain (f : Forecast) : Int := (f.hourly.rainChances.findSome? id).getD 0

/-- The row of the table for the day at a position. -/
def dayRow (d : DailyWeather) (i : Nat) (day : String) : String :=
  let rain := match (d.rainChances[i]?).join with
    | some r => toString r
    | none => "-"
  s!"| {day} | {temperatureOrDash (d.highs[i]?).join} | {temperatureOrDash (d.lows[i]?).join} | "
    ++ s!"{condition (d.codes[i]?).join} | {rain}% |"

/-- The table of the coming days, if there are any. -/
def dayLines (d : DailyWeather) : List String :=
  if d.days.isEmpty then []
  else
    ["", "## 7-Day Forecast", "| Date | High | Low | Condition | Rain% |",
      "|------|------|-----|-----------|-------|"] ++ d.days.mapIdx (dayRow d)

/-- The report on a forecast for a place. -/
def report (location : String) (f : Forecast) : String :=
  let c := f.current
  let lines := [
    "# Weather for " ++ location,
    "",
    "## Current Conditions",
    s!"- **Temperature:** {temperature c.temperature} (feels like {temperature c.feelsLike})",
    s!"- **Rain%:** {nextRain f}% (next hours)",
    s!"- **Condition:** {condition (some c.code)}",
    s!"- **Humidity:** {c.humidity}%",
    s!"- **Wind:** {Binary64.toFixed 0 c.windSpeed} mph {compassPoint c.windDirection}"]
  "\n".intercalate (lines ++ dayLines f.daily) ++ "\n"

end Weather

end PipeScript
