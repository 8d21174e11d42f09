import PipeScript.Crypto
import PipeScript.Surroundings

/-!
# The coin price command

Asks the market service for the coins of a query and reports their prices. Reports are cached by
request.
-/

namespace PipeScript.Command

open Surroundings

/-- The seconds for which a price report counts. -/
def pricesLifetime : Nat := 60

/-- The prices of the coins that the argument asks for, or else the value. -/
def crypto (argument _second input : String) : Errand String := do
  let query := Crypto.query argument input
  let request ← Work.check fun _ => (Crypto.request query).mapError (.ofWholeNumber query)
  cached "crypto" request.key pricesLifetime do
    let v ← fetch .markets request.parameters
    let coins ← Work.check fun _ => rows "coingecko" "CoinMarket" Coin.ofJson v
    if coins.isEmpty then throw (.noPrices query)
    pure (Crypto.report coins)

end PipeScript.Command
