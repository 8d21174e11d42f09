import PipeScript.Surroundings
import PipeScript.Weather

/-!
# The weather command

Finds the place that is asked for, gets its forecast and reports it. Reports are cached by place.
-/

namespace PipeScript.Command

open Surroundings

/-- The seconds for which a weather report counts. -/
def weatherLifetime : Nat := 600

/-- The first place that the search finds. -/
def findPlace (location : String) : Errand Place := do
  let v ← fetch .geocode [("name", .string location), ("count", .int 1), ("language", .string "en"),
    ("format", .string "json")]
  match ← Work.check fun _ => fitting "geocoding" "GeocodeResponse" Place.listOfJson v with
  | [] => throw (.unknownPlace location)
  | place :: _ => pure place

/-- What is asked of the forecast service. -/
def forecastParameters (p : Place) : List (String × Json) := [
  ("latitude", .string (Binary64.toFixed 4 p.latitude)),
  ("longitude", .string (Binary64.toFixed 4 p.longitude)),
  ("current", .string ("temperature_2m,relative_humidity_2m,apparent_temperature,weather_code,"
    ++ "wind_speed_10m,wind_direction_10m")),
  ("hourly", .string "precipitation_probability"),
  ("daily", .string
    "weather_code,temperature_2m_max,temperature_2m_min,precipitation_probability_max"),
  ("temperature_unit", .string "fahrenheit"),
  ("wind_speed_unit", .string "mph"),
  ("timezone", .string "auto"),
  ("forecast_days", .int 7),
  ("forecast_hours", .int 24)]

/-- The forecast for a place. -/
def getForecast (p : Place) : Errand Forecast := do
  let v ← fetch .forecast (forecastParameters p)
  Work.check fun _ => fitting "forecast" "ForecastResponse" Forecast.ofJson v

/-- The weather at the place that the argument names, or else the value. -/
def weather (argument _second input : String) : Errand String := do
  let location := String.ofList (Text.trim (if argument.isEmpty then input else argument).toList)
  if location.isEmpty then throw (.requires "weather" "a location")
  cached "weather" (String.ofList (Text.lower location.toList)) weatherLifetime do
    let place ← findPlace location
    let forecast ← getForecast place
    pure (Weather.report place.displayName forecast)

end PipeScript.Command
