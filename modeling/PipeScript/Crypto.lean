import PipeScript.Binary64.Fixed
import PipeScript.Text.Blank
import PipeScript.Text.Casing
import PipeScript.Text.Digit
import PipeScript.Text.Split
import PipeScript.Validation

/-!
# Coin prices

A query asks for the largest coins or names some by symbol; it is sent to the market service as a
number of rows or as a list of identifiers. The answer is a list of market rows, reported one by
one.
-/

namespace PipeScript

open Text

/-- The market row of a coin. -/
structure Coin where
  id : String
  symbol : String
  name : String
  price : Binary64
  change : Option Binary64
  marketCap : Option Binary64
  rank : Option Int
  high : Option Binary64
  low : Option Binary64
deriving DecidableEq, Repr

namespace Coin

/-- A symbol: any value, as a text in upper case. -/
def symbolOf (v : Json) : Checked String := .ok (String.ofList (upper v.display.toList))

/-- Read a market row. -/
def ofJson : Json → Checked Coin :=
  Rule.record "CoinMarket" fun fields =>
    let number (name : String) :=
      Rule.defaulted name (Rule.optional (Rule.number .data)) none fields
    Checked.ap (Checked.ap (Checked.ap (Checked.ap (Checked.ap (Checked.ap (Checked.ap (Checked.ap
      ((Rule.required "id" Rule.string fields).map Coin.mk)
      (Rule.required "symbol" symbolOf fields))
      (Rule.required "name" Rule.string fields))
      (Rule.required "current_price" (Rule.number .data) fields))
      (number "price_change_percentage_24h"))
      (number "market_cap"))
      (Rule.defaulted "market_cap_rank" (Rule.optional Rule.integer) none fields))
      (number "high_24h"))
      (number "low_24h")

end Coin

namespace Crypto

/-! ### Queries -/

/-- Identifiers of well-known coins by symbol. -/
def identifiers : List (String × String) := [
  ("BTC", "bitcoin"), ("ETH", "ethereum"), ("SOL", "solana"), ("ADA", "cardano"),
  ("DOT", "polkadot"), ("DOGE", "dogecoin"), ("SHIB", "shiba-inu"), ("AVAX", "avalanche-2"),
  ("MATIC", "matic-network"), ("LINK", "chainlink"), ("UNI", "uniswap"), ("ATOM", "cosmos"),
  ("XRP", "ripple"), ("LTC", "litecoin"), ("BNB", "binancecoin"), ("NEAR", "near"),
  ("ALGO", "algorand"), ("XLM", "stellar"), ("OP", "optimism"), ("ARB", "arbitrum")]

/-- The identifier of a symbol: a well-known one, or the symbol in lower case. -/
def identifier (symbol : String) : String :=
  let key := String.ofList (upper symbol.toList)
  match identifiers.find? fun c => c.1 == key with
  | some (_, id) => id
  | none => String.ofList (lower symbol.toList)

/-- The digits after `top` in a text that is `top` and perhaps a number, in any letter case. -/
def afterTop? : List Char → Option (List Char)
  | t :: o :: p :: rest =>
    let digits := rest.dropWhile isBlank
    if [t, o, p].map Char.toLower == "top".toList && digits.all isDigit then some digits else none
  | _ => none

/-- The symbols that a query names, unless it asks for the largest coins. -/
def symbols? (query : String) : Option (List String) :=
  let s := trim query.toList
  if s.isEmpty || (afterTop? s).isSome then none
  else
    let pieces := splitWhere (fun c => c == ',' || isBlank c) s
    some ((pieces.filter (!·.isEmpty)).map String.ofList)

/-- How many of the largest coins a query asks for: from 1 to 100. -/
def topCount (query : String) (default : Int) : Except WholeNumber.Problem Int :=
  match afterTop? (trim query.toList) with
  | some (d :: ds) => (WholeNumber.read (d :: ds)).map fun n => max 1 (min n 100)
  | _ => .ok default

/-- What is asked of the market service. -/
inductive Request
  | top (count : Int)
  | coins (ids : List String)
deriving DecidableEq, Repr

/-- The query that an argument and a value make. -/
def query (argument input : String) : String :=
  let q := if !argument.isEmpty then argument else if !input.isEmpty then input else "top 10"
  String.ofList (trim q.toList)

/-- The request that a query makes. -/
def request (query : String) : Except WholeNumber.Problem Request :=
  match symbols? query with
  | none => (topCount query 10).map .top
  | some symbols => .ok (.coins (symbols.map identifier))

/-- The key under which the answer to a request is cached. -/
def Request.key : Request → String
  | .top count => s!"top:{count}"
  | .coins ids => ",".intercalate ids

/-- The parameters of a request. -/
def Request.parameters (r : Request) : List (String × Json) :=
  [("vs_currency", .string "usd"), ("order", .string "market_cap_desc"),
    ("price_change_percentage", .string "24h")]
  ++ match r with
     | .top count => [("per_page", .int count), ("page", .int 1)]
     | .coins ids => [("ids", .string (",".intercalate ids))]

/-! ### Reports -/

/-- A price in dollars, with more places the smaller it is. -/
def price (p : Binary64) : String :=
  let places := if Binary64.le 1 p then 2 else if Binary64.le (.ofRatio false 1 100) p then 4 else 8
  "$" ++ Binary64.toFixed places p

/-- The change of a coin's price; an unknown one counts as none. -/
def changeOf (c : Coin) : Binary64 :=
  match c.change with
  | some x => if Binary64.eq x 0 then 0 else x
  | none => 0

/-- The line with the highest and lowest price, if both are known. -/
def rangeLines (c : Coin) : List String :=
  match c.high, c.low with
  | some h, some l => [s!"- **24h High/Low:** {price h} / {price l}"]
  | _, _ => []

/-- The line with the value of all coins, if it is known. -/
def capLines (c : Coin) : List String :=
  match c.marketCap with
  | some m =>
    let rank := match c.rank with
      | some r => if r = 0 then "" else s!" (#{r})"
      | none => ""
    [s!"- **Market Cap:** ${Binary64.toGroupedFixed 0 (m / 1000000)}M{rank}"]
  | none => []

/-- The lines about a coin. -/
def coinLines (c : Coin) : List String :=
  let change := changeOf c
  let arrow := if Binary64.le 0 change then "📈" else "📉"
  [s!"## {c.name} ({c.symbol}) {arrow}",
    s!"**Price:** {price c.price} ({Binary64.toSignedFixed 2 change}%)",
    s!"- **Change%:** {Binary64.toSignedFixed 2 change}"]
    ++ rangeLines c ++ capLines c ++ [""]

/-- The report on coins. -/
def report (coins : List Coin) : String :=
  "\n".intercalate ([s!"# Crypto Market ({coins.length} coins)", ""] ++ coins.flatMap coinLines)

end Crypto

end PipeScript
