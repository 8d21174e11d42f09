import PipeScript.Proofs.Command.Builtin
import PipeScript.Proofs.Surroundings
import PipeScript.Proofs.Text.Search

/-!
# What is not found

A search that finds nothing need not be asked again: its failure does not pass. But whether a failure
passes is read off its message, and the message quotes what was looked for. So the weather at a place
that is called after one of the signs of a passing failure is asked for again, and so are the prices of
such a coin.

## The model

The stage is run up to where it ends or waits (`Process.advance`). The surroundings answer from what they
have in store, and record what they have been asked: `Surroundings.asked` adds one request. A cache
without a live entry of the pair is one whose look-up finds nothing (`Surroundings.Misses`), as it is
where the entry's file is missing, broken or expired (`Surroundings.misses_of_held?`).

Main results: a message that quotes a text speaks of a passing failure if the quoted text does
(`isPassing_append_quote`), and that does if the text itself does, unless it has to be escaped
(`isPassing_quote`); a remote command whose call fails has failed for good, without a nap, exactly
if its message does not (`Engine.failsUnless_passing`); which of the two it is where nothing is found is
settled by what was looked for (`Engine.notFound_failsUnless`).
-/

namespace PipeScript

open Text

/-! ### Messages that quote a text -/

/-- The letters of the signs are no sigmas. -/
theorem not_mem_passingSigns {sign : String} (h : sign ∈ passingSigns) :
    Casing.smallSigma ∉ sign.toList ∧ Casing.finalSigma ∉ sign.toList := by
  revert sign
  decide

/-- A message speaks of a passing failure if one of the signs stands in it, each character taken for
itself. -/
theorem isPassing_iff {message : String} :
    isPassing message = true ↔
      ∃ sign ∈ passingSigns, sign.toList <:+: Casing.fold message.toList := by
  rw [isPassing, List.any_eq_true]
  constructor
  · rintro ⟨sign, hsign, hoccurs⟩
    obtain ⟨hsmall, hfinal⟩ := not_mem_passingSigns hsign
    rw [occursIn_iff, Casing.infix_lower_iff hsmall hfinal] at hoccurs
    exact ⟨sign, hsign, hoccurs⟩
  · rintro ⟨sign, hsign, hoccurs⟩
    obtain ⟨hsmall, hfinal⟩ := not_mem_passingSigns hsign
    refine ⟨sign, hsign, ?_⟩
    rwa [occursIn_iff, Casing.infix_lower_iff hsmall hfinal]

theorem markFor_mem (s : List Char) : markFor s ∈ ['\'', '"'] := by
  unfold markFor
  split <;> simp

/-- No sign has a quotation mark, and a mark has no other case. -/
theorem fold_mark {mark : Char} (h : mark ∈ ['\'', '"']) :
    Casing.foldChar mark = [mark] ∧ ∀ sign ∈ passingSigns, mark ∉ sign.toList ∧ sign.toList ≠ [] := by
  rcases (by simpa using h : mark = '\'' ∨ mark = '"') with rfl | rfl <;> decide

section Marked

variable {mark : Char} {sign : String}

/-- A sign stands before a mark or behind it. -/
theorem infix_fold_append (hmark : mark ∈ ['\'', '"']) (hsign : sign ∈ passingSigns) (a b : List Char) :
    sign.toList <:+: Casing.fold (a ++ mark :: b) ↔
      sign.toList <:+: Casing.fold a ∨ sign.toList <:+: Casing.fold b := by
  obtain ⟨hfold, hsigns⟩ := fold_mark hmark
  obtain ⟨hmem, hne⟩ := hsigns sign hsign
  have hcons : Casing.fold (mark :: b) = mark :: Casing.fold b := by
    rw [Casing.fold, List.flatMap_cons, hfold]
    rfl
  rw [Casing.fold_append, hcons, infix_append_cons hne hmem]

theorem not_infix_fold_nil (hmark : mark ∈ ['\'', '"']) (hsign : sign ∈ passingSigns) :
    ¬sign.toList <:+: Casing.fold [] := by
  intro h
  obtain ⟨-, hne⟩ := (fold_mark hmark).2 sign hsign
  exact hne (List.infix_nil.mp h)

theorem infix_fold_cons (hmark : mark ∈ ['\'', '"']) (hsign : sign ∈ passingSigns) (b : List Char) :
    sign.toList <:+: Casing.fold (mark :: b) ↔ sign.toList <:+: Casing.fold b := by
  rw [← List.nil_append (mark :: b), infix_fold_append hmark hsign,
    or_iff_right (not_infix_fold_nil hmark hsign)]

end Marked

/-- **A message that quotes a text** speaks of a passing failure if the quoted text does, and nothing that
stands before it does. -/
theorem isPassing_append_quote {start : String} (hstart : isPassing start = false) (text : String) :
    isPassing (start ++ quote text) = isPassing (quote text) := by
  obtain ⟨rest, hquote⟩ : ∃ rest, (quote text).toList = markFor text.toList :: rest :=
    ⟨_, String.toList_ofList⟩
  have hmark := markFor_mem text.toList
  rw [Bool.eq_iff_iff, isPassing_iff, isPassing_iff, String.toList_append, hquote]
  refine exists_congr fun sign => and_congr_right fun hsign => ?_
  have hnot : ¬sign.toList <:+: Casing.fold start.toList := by
    intro h
    rw [isPassing_iff.mpr ⟨sign, hsign, h⟩] at hstart
    cases hstart
  rw [infix_fold_append hmark hsign, infix_fold_cons hmark hsign, or_iff_right hnot]

/-- **A text that is quoted as it stands** speaks of a passing failure between quotation marks if it does
without them. -/
theorem isPassing_quote {text : String}
    (h : ∀ c ∈ text.toList, quotedChar (markFor text.toList) c = [c]) :
    isPassing (quote text) = isPassing text := by
  have hbody : text.toList.flatMap (quotedChar (markFor text.toList)) = text.toList := by
    rw [List.flatMap_def, List.map_congr_left h, ← List.flatMap_def, List.flatMap_singleton']
  have hquote : (quote text).toList =
      markFor text.toList :: (text.toList ++ markFor text.toList :: []) := by
    rw [quote, String.toList_ofList, quoted, hbody]
    rfl
  have hmark := markFor_mem text.toList
  rw [Bool.eq_iff_iff, isPassing_iff, isPassing_iff, hquote]
  refine exists_congr fun sign => and_congr_right fun hsign => ?_
  rw [infix_fold_cons hmark hsign, infix_fold_append hmark hsign,
    or_iff_left (not_infix_fold_nil hmark hsign)]

theorem isPassing_unknownPlace (location : String) :
    isPassing (Failure.unknownPlace location).message = isPassing (quote location) :=
  isPassing_append_quote (by decide +kernel) location

theorem isPassing_noPrices (query : String) :
    isPassing (Failure.noPrices query).message = isPassing (quote query) :=
  isPassing_append_quote (by decide +kernel) query

/-! ### Attempts that fail -/

/-- The delay after the first attempt is always told. -/
theorem RetryPolicy.exists_firstDelay (policy : RetryPolicy) (draw : Binary64) :
    ∃ delay, policy.delayAfter 1 draw = .ok delay := by
  have hzero : (Binary64.ofInt (1 - 1)).toInt? = some 0 := by decide +kernel
  have hgrowth : policy.growth (1 - 1) = .ok 1 := by
    rw [RetryPolicy.growth, hzero]
    rfl
  rw [RetryPolicy.delayAfter, hgrowth]
  exact ⟨_, rfl⟩

namespace Process

variable {σ : Type}

theorem advance_andThen {p : Process σ} {k : Outcome → Process σ} {w w' : World σ} {o : Outcome}
    (h : p.advance w = (w', .ended o)) : (p.andThen k).advance w = (k o).advance w' := by
  induction p generalizing w with
  | done o' =>
    obtain ⟨rfl, rfl⟩ : w = w' ∧ o' = o := by simpa [advance] using h
    rfl
  | look next ih => exact ih w h
  | act e next ih => exact ih h
  | wait seconds next ih =>
    rw [advance] at h
    split at h <;> simp at h
  | nap place r next ih =>
    rw [advance] at h
    rw [andThen, advance]
    by_cases hc : w.cancelled = true
    · rw [if_pos hc] at h ⊢
      exact ih true h
    · by_cases hr : Binary64.lt 0 r = true
      · rw [if_neg hc, if_pos hr] at h
        simp at h
      · rw [if_neg hc, if_neg hr] at h ⊢
        exact ih false h
  | fork kind count branch next _ ih =>
    rw [advance] at h
    rw [andThen, advance]
    by_cases hzero : count = 0
    · rw [if_pos hzero] at h ⊢
      exact ih (.ok []) h
    · rw [if_neg hzero] at h
      simp at h

/-- An attempt that fails is the call and what follows the failure. -/
theorem advance_attempt {name : String} {call : Process σ} {again : Failure → Process σ}
    {k : Outcome → Process σ} {w w' : World σ} {f : Failure} (hlive : w.cancelled = false)
    (h : call.advance w = (w', .ended (.error f))) :
    ((attempt name call again).andThen k).advance w =
      ((if isPassing f.message then again f else fail f).andThen k).advance w' := by
  rw [attempt, checkpoint, andThen, advance, if_neg (by simp [hlive]), andThen_assoc,
    advance_andThen h]

/-- The naps that have been asked for stay on record. -/
theorem naps_suffix_advance (p : Process σ) (w : World σ) : w.naps <:+ (p.advance w).1.naps := by
  induction p generalizing w with
  | done o => exact List.suffix_rfl
  | look next ih => exact ih w w
  | act e next ih =>
    have hact : w.naps <:+ (e.apply w).naps := by
      cases e with
      | nap place seconds => exact List.suffix_cons _ _
      | _ => exact List.suffix_rfl
    exact hact.trans (ih _)
  | wait seconds next ih =>
    rw [advance]
    split <;> exact List.suffix_rfl
  | nap place r next ih =>
    rw [advance]
    split
    · exact ih true w
    · split
      · exact List.suffix_rfl
      · exact ih false w
  | fork kind count branch next _ ih =>
    rw [advance]
    split
    · exact ih _ w
    · exact List.suffix_rfl

/-- A nap is asked for between two attempts. -/
theorem naps_between (policy : RetryPolicy) (name : String) (number : Nat) (f : Failure)
    (next : Process σ) (delay : Binary64) (k : Outcome → Process σ) (w : World σ) :
    (retryPlace name, delay) :: w.naps <:+
      (((between policy name number f next (.ok delay)).andThen k).advance w).1.naps := by
  rw [between, log, sleep, andThen, andThen, advance, advance]
  generalize hasked : Effect.apply (Effect.apply w _) (.nap (retryPlace name) delay) = w'
  have hnaps : w'.naps = (retryPlace name, delay) :: w.naps := by
    rw [← hasked]
    rfl
  rw [← hnaps]
  exact naps_suffix_advance _ w'

end Process

/-! ### A remote command that fails -/

namespace Engine

variable {σ : Type} {e : Engine σ} {action a b input : String} {s : CommandSpec (Collaborator σ)}
  {policy : RetryPolicy} {w : World σ} {work : Work σ String} {f : Failure} {after : σ}

/-- The world after a command has been announced. -/
def announced (action a b : String) (w : World σ) : World σ :=
  { w with log := ⟨.debug, s!"[command] {action} {quote a} {quote b}"⟩ :: w.log }

/-- The world after a command has been called, has come to this, and has left these surroundings. -/
def called (action a b input : String) (o : Outcome) (after : σ) (w : World σ) : World σ :=
  { announced action a b w with
    calls := ⟨action, a, b, input, w.now⟩ :: w.calls
    outcomes := (action, o) :: w.outcomes
    surroundings := after }

/-- Does the process end with the command's failure before it ever waits, having left these surroundings
and asked for no nap? -/
structure FailsAtOnce (p : Process σ) (action : String) (f : Failure) (after : σ) (w : World σ) : Prop where
  ended : (p.advance w).2 = .ended (.error (.command action f))
  surroundings : (p.advance w).1.surroundings = after
  naps : (p.advance w).1.naps = w.naps

/-- What a remote command does when its first call fails; the numbers are those that are drawn for it. -/
def afterFailure (draws : Nat → Binary64) (policy : RetryPolicy) (action : String) (call : Process σ)
    (f : Failure) : Process σ :=
  if isPassing f.message then
    let second := Process.attemptsFrom policy action draws (fun _ => call) (policy.maxAttempts - 2) 2
    Process.between policy action 1 f second (policy.delayAfter 1 (draws 1))
  else .fail f

/-- What a command comes to, and that it is counted if it ends well. -/
def finishCommand (action : String) : Outcome → Process σ
  | .ok value => .act (.count (.command action)) (.ok value)
  | .error f => .fail (commandFailure action f)

/-- **The first call** of a remote command that fails. -/
theorem advance_runCommand (hs : e.registry.get? action = some s) (hpolicy : s.effectivePolicy = some policy)
    (hmax : 1 < policy.maxAttempts) (hstyle : s.style = .direct) (hwork : s.work a b input = .ofWork work)
    (hlive : w.cancelled = false) (hrun : work.on w.surroundings = (.error f, after)) :
    (e.runCommand action a b input).advance w =
      ((afterFailure (e.draw.share w.calls.length) policy action (invoke s action a b input) f).andThen
        (finishCommand action)).advance (called action a b input (.error f) after w) := by
  obtain ⟨left, hleft⟩ : ∃ left, policy.maxAttempts = left + 2 := ⟨policy.maxAttempts - 2, by omega⟩
  have hjob (w' : World σ) (hw' : w'.surroundings = w.surroundings) (k : Outcome → Process σ) :
      ((Process.ofJob (.ofWork work)).andThen k).advance w' =
        (k (.error f)).advance { w' with surroundings := after } := by
    rw [Job.ofWork, Process.ofJob, Process.andThen, Process.advance, hw', hrun]
    rfl
  have hcall : (invoke s action a b input).advance (announced action a b w) =
      (called action a b input (.error f) after w, .ended (.error f)) := by
    rw [invoke, hwork, hstyle]
    exact hjob (Effect.apply (announced action a b w) (.begin action a b input)) rfl _
  have hwhole : (e.runCommand action a b input).advance w =
      ((Process.attempts policy action (e.draw.share w.calls.length) fun _ =>
        invoke s action a b input).andThen (finishCommand action)).advance (announced action a b w) := by
    rw [runCommand, hs]
    simp only [hpolicy]
    rfl
  rw [hwhole, Process.attempts, afterFailure, hleft]
  exact Process.advance_attempt hlive hcall

/-- Does the process ask for a nap before it calls the command again? -/
def NapsFirst (p : Process σ) (action : String) (w : World σ) : Prop :=
  ∃ delay, (Process.retryPlace action, delay) :: w.naps <:+ (p.advance w).1.naps

theorem FailsAtOnce.not_napsFirst {p : Process σ} (h : FailsAtOnce p action f after w) :
    ¬NapsFirst p action w := by
  rintro ⟨delay, hsuffix⟩
  rw [h.naps] at hsuffix
  exact Nat.not_succ_le_self _ hsuffix.length_le

/-- Does the process fail at once exactly if its failure is not passing, and ask for a nap before it calls
the command again exactly if it is? -/
structure FailsUnless (passing : Bool) (p : Process σ) (action : String) (f : Failure) (after : σ)
    (w : World σ) : Prop where
  failsAtOnce_iff : FailsAtOnce p action f after w ↔ passing = false
  napsFirst_iff : NapsFirst p action w ↔ passing = true

theorem failsUnless {passing : Bool} {p : Process σ}
    (hlasting : passing = false → FailsAtOnce p action f after w)
    (hpassing : passing = true → NapsFirst p action w) : FailsUnless passing p action f after w := by
  constructor
  · refine ⟨fun h => ?_, hlasting⟩
    exact Bool.eq_false_iff.mpr fun hpass => h.not_napsFirst (hpassing hpass)
  · refine ⟨fun h => ?_, hpassing⟩
    by_contra hpass
    exact (hlasting (Bool.eq_false_iff.mpr hpass)).not_napsFirst h

/-- **Whether a remote command is called again** is settled by whether its failure is taken for passing. -/
theorem failsUnless_passing (hs : e.registry.get? action = some s)
    (hpolicy : s.effectivePolicy = some policy) (hmax : 1 < policy.maxAttempts)
    (hstyle : s.style = .direct) (hwork : s.work a b input = .ofWork work) (hlive : w.cancelled = false)
    (hrun : work.on w.surroundings = (.error f, after)) (hf : f.isCancelled = false) :
    FailsUnless (isPassing f.message) (e.runCommand action a b input) action f after w := by
  have hadvance := advance_runCommand hs hpolicy hmax hstyle hwork hlive hrun
  rw [afterFailure] at hadvance
  apply failsUnless
  · intro hlasting
    rw [if_neg (by simp [hlasting])] at hadvance
    have hend : commandFailure action f = .command action f := if_neg (by simp [hf])
    have hended : (e.runCommand action a b input).advance w =
        (called action a b input (.error f) after w, .ended (.error (.command action f))) := by
      rw [hadvance, ← hend]
      rfl
    constructor <;> rw [hended] <;> rfl
  · intro hpassing
    obtain ⟨delay, hdelay⟩ := policy.exists_firstDelay (e.draw.share w.calls.length 1)
    rw [if_pos hpassing, hdelay] at hadvance
    generalize Process.attemptsFrom policy action _ _ _ _ = next at hadvance
    refine ⟨delay, ?_⟩
    rw [hadvance]
    exact Process.naps_between policy action 1 f next delay (finishCommand action)
      (called action a b input (.error f) after w)

end Engine

/-! ### What is not found -/

namespace Command

open Surroundings

variable {s : Surroundings} {d : Disk} {v : Json}

/-- What is asked of the search for places. -/
def placeParameters (location : String) : List (String × Json) :=
  [("name", .string location), ("count", .int 1), ("language", .string "en"), ("format", .string "json")]

/-- The place that the weather is asked for. -/
def locationOf (argument input : String) : String :=
  String.ofList (trim (if argument.isEmpty then input else argument).toList)

theorem weather_of_location {argument second input : String}
    (h : ¬(locationOf argument input).isEmpty = true) :
    weather argument second input =
      cached "weather" (String.ofList (lower (locationOf argument input).toList)) weatherLifetime (do
        let place ← findPlace (locationOf argument input)
        let forecast ← getForecast place
        pure (Weather.report place.displayName forecast)) := by
  rw [weather]
  exact if_neg h

/-- **No place is found** where the search answers that there is none. -/
theorem on_weather (argument second input : String) (hlocation : locationOf argument input ≠ "")
    (hmiss : s.Misses "weather" (String.ofList (lower (locationOf argument input).toList)) d)
    (hreply : dataOf Service.geocode.url (s.nextReply .geocode) = .ok v)
    (hnone : Place.listOfJson v = .ok []) :
    (weather argument second input).on s =
      (.error (.unknownPlace (locationOf argument input)),
        ({ s with disk := d }).asked .geocode (placeParameters (locationOf argument input))) := by
  have hfind : (findPlace (locationOf argument input)).on { s with disk := d } =
      (.error (.unknownPlace (locationOf argument input)),
        ({ s with disk := d }).asked .geocode (placeParameters (locationOf argument input))) := by
    rw [findPlace, Work.on_bind, on_fetch, nextReply_disk, hreply]
    simp only [Work.on_bind, Work.check, fitting, hnone]
    rfl
  have hempty : ¬(locationOf argument input).isEmpty = true := by
    rwa [String.isEmpty_iff]
  rw [weather_of_location hempty]
  refine on_cached_of_error hmiss ?_ weatherLifetime
  rw [Work.on_bind, hfind]

/-- What is done for a price report that is not in the cache. -/
def getPrices (query : String) (request : Crypto.Request) : Errand String := do
  let v ← fetch .markets request.parameters
  let coins ← Work.check fun _ => rows "coingecko" "CoinMarket" Coin.ofJson v
  if coins.isEmpty then throw (.noPrices query)
  pure (Crypto.report coins)

theorem on_crypto_of_request {argument input : String} {request : Crypto.Request}
    (hrequest : Crypto.request (Crypto.query argument input) = .ok request) (second : String)
    (s : Surroundings) : (crypto argument second input).on s =
      (cached "crypto" request.key pricesLifetime (getPrices (Crypto.query argument input) request)).on s := by
  rw [crypto, Work.on_bind, Work.check, Work.on_of, hrequest]
  rfl

/-- **No prices are found** where the market's list is empty. -/
theorem on_crypto (argument second input : String) {request : Crypto.Request}
    (hrequest : Crypto.request (Crypto.query argument input) = .ok request)
    (hmiss : s.Misses "crypto" request.key d)
    (hreply : dataOf Service.markets.url (s.nextReply .markets) = .ok (.array [])) :
    (crypto argument second input).on s =
      (.error (.noPrices (Crypto.query argument input)),
        ({ s with disk := d }).asked .markets request.parameters) := by
  rw [on_crypto_of_request hrequest]
  refine on_cached_of_error hmiss ?_ pricesLifetime
  rw [getPrices, Work.on_bind, on_fetch, nextReply_disk, hreply]
  rfl

/-! ### The built-in commands -/

/-- Is this the work of the built-in command, and is it tried more than once? -/
def IsRetried (action : String) (work : String → String → String → Errand String) : Prop :=
  ∃ s policy, registry.get? action = some s ∧ s.work = errand work ∧ s.style = .direct ∧
    s.effectivePolicy = some policy ∧ 1 < policy.maxAttempts

theorem isRetried_weather : IsRetried "weather" weather :=
  ⟨_, _, rfl, rfl, rfl, rfl, by decide +kernel⟩

theorem isRetried_crypto : IsRetried "crypto" crypto :=
  ⟨_, _, rfl, rfl, rfl, rfl, by decide +kernel⟩

end Command

namespace Engine

open Command Surroundings

section Quoting

variable {e : Engine Surroundings} {w : World Surroundings} {action a b input text : String} {f : Failure}
  {after : Surroundings} {work : String → String → String → Errand String}

/-- **A built-in command whose failure quotes a text** is called again if the text is taken for a passing
failure. -/
theorem failsUnless_quoting (hr : e.registry = Command.registry) (h : IsRetried action work)
    (hlive : w.cancelled = false) (hrun : (work a b input).on w.surroundings = (.error f, after))
    (hf : f.isCancelled = false) (hmessage : isPassing f.message = isPassing (quote text)) :
    FailsUnless (isPassing (quote text)) (e.runStage (.command action a b) input) action f after w := by
  obtain ⟨s, policy, hs, hwork, hstyle, hpolicy, hmax⟩ := h
  rw [← hr] at hs
  rw [← hmessage, runStage]
  refine failsUnless_passing hs hpolicy hmax hstyle ?_ hlive hrun hf
  rw [hwork]
  rfl

/-- **Where nothing is found** a built-in command fails at once, after one request and without a nap, exactly
if what was looked for is not, in quotation marks, taken for a passing failure; if it is, there is a nap
before it is asked for again. So it is for the weather at a place that the search does not know, and for
prices that the market does not list. -/
theorem notFound_failsUnless (hr : e.registry = Command.registry) (hlive : w.cancelled = false)
    (argument second input : String) :
    (∀ d v, locationOf argument input ≠ "" →
      w.surroundings.Misses "weather" (String.ofList (lower (locationOf argument input).toList)) d →
      dataOf Service.geocode.url (w.surroundings.nextReply .geocode) = .ok v →
      Place.listOfJson v = .ok [] →
      FailsUnless (isPassing (quote (locationOf argument input)))
        (e.runStage (.command "weather" argument second) input) "weather"
        (.unknownPlace (locationOf argument input))
        (({ w.surroundings with disk := d }).asked .geocode
          (placeParameters (locationOf argument input))) w) ∧
    (∀ d request, Crypto.request (Crypto.query argument input) = .ok request →
      w.surroundings.Misses "crypto" request.key d →
      dataOf Service.markets.url (w.surroundings.nextReply .markets) = .ok (.array []) →
      FailsUnless (isPassing (quote (Crypto.query argument input)))
        (e.runStage (.command "crypto" argument second) input) "crypto"
        (.noPrices (Crypto.query argument input))
        (({ w.surroundings with disk := d }).asked .markets request.parameters) w) := by
  constructor
  · intro d v hlocation hmiss hreply hnone
    exact failsUnless_quoting hr isRetried_weather hlive (on_weather _ _ _ hlocation hmiss hreply hnone) rfl
      (isPassing_unknownPlace _)
  · intro d request hrequest hmiss hreply
    exact failsUnless_quoting hr isRetried_crypto hlive (on_crypto _ _ _ hrequest hmiss hreply) rfl
      (isPassing_noPrices _)

end Quoting

/-! ### Runs -/

/-- Surroundings in which nothing is found, and nothing is in the cache. -/
def barren (cache : Option Path) : Surroundings where
  settings := { cacheDirectory := Cache.here }
  cache
  clock := .finite false 0
  replies
    | .geocode => [.answer 200 "OK" (.value (.object []))]
    | _ => [.answer 200 "OK" (.value (.array []))]

theorem misses_barren {space : String} (hsafe : (CacheEntry.safeSpace space).length ≤ 25)
    (key : String) : (barren (some Cache.here)).Misses space key {} := by
  have hmisses := misses_of_held? (s := barren (some Cache.here)) rfl
    (Cache.keepable_empty hsafe key) (Cache.held?_empty hsafe key)
  rwa [show (barren (some Cache.here)).disk = {} from rfl, Cache.erase_empty] at hmisses

/-- An engine with the built-in commands. -/
def builtinEngine : Engine Surroundings := ⟨Command.registry, 0, 0, .constant (.ofRatio false 1 2)⟩

/-- **Neither Atlantis nor its coin** is found, and each is asked for once. -/
theorem notFound_atlantis :
    FailsAtOnce (builtinEngine.runStage (.command "weather" "atlantis" "") "") "weather"
      (.unknownPlace "atlantis")
      ((barren (some Cache.here)).asked .geocode (placeParameters "atlantis"))
      { surroundings := barren (some Cache.here) } ∧
    FailsAtOnce (builtinEngine.runStage (.command "crypto" "atlantis" "") "") "crypto"
      (.noPrices "atlantis")
      ((barren (some Cache.here)).asked .markets (Crypto.Request.coins ["atlantis"]).parameters)
      { surroundings := barren (some Cache.here) } := by
  have hlasting : isPassing (quote "atlantis") = false := by decide +kernel
  have hlocation : locationOf "atlantis" "" = "atlantis" := by decide +kernel
  have hquery : Crypto.query "atlantis" "" = "atlantis" := by decide +kernel
  have hrequest : Crypto.request "atlantis" = .ok (.coins ["atlantis"]) := rfl
  obtain ⟨hweather, hcrypto⟩ := notFound_failsUnless (e := builtinEngine)
    (w := { surroundings := barren (some Cache.here) }) rfl rfl "atlantis" "" ""
  rw [hlocation] at hweather
  rw [hquery] at hcrypto
  have hplace := hweather {} (.object []) (by decide) (misses_barren (by decide) _) rfl rfl
  have hcoin := hcrypto {} _ hrequest (misses_barren (by decide) _) rfl
  exact ⟨hplace.failsAtOnce_iff.mpr hlasting, hcoin.failsAtOnce_iff.mpr hlasting⟩

/-- A place that is called "timeout" is asked for three times with two naps between, though the search has
nothing to find. -/
theorem timeout_retried :
    (locationOf "timeout" "" = "timeout" ∧ (barren none).Misses "weather" "timeout" {} ∧
      dataOf Service.geocode.url ((barren none).nextReply .geocode) = .ok (.object []) ∧
      Place.listOfJson (.object []) = .ok []) ∧
    (∀ after, ¬FailsAtOnce (builtinEngine.runStage (.command "weather" "timeout" "") "") "weather"
      (.unknownPlace "timeout") after { surroundings := barren none }) ∧
    (Schedule.run false { surroundings := barren none }
        (builtinEngine.runStage (.command "weather" "timeout" "") "")).map
      (fun (o, w) => (o.mapError Failure.message, w.naps.length, w.surroundings.dataRequests.length)) =
        some (.error ("weather failed: weather failed after 3 attempts: "
          ++ "could not find location 'timeout'"), 2, 3) := by
  have hlocation : locationOf "timeout" "" = "timeout" := by decide +kernel
  have hpassing : isPassing (quote "timeout") = true := by decide +kernel
  have hmiss : (barren none).Misses "weather" "timeout" {} := rfl
  refine ⟨⟨hlocation, hmiss, rfl, rfl⟩, ?_, ?_⟩
  · intro after h
    have hrun := on_weather (s := barren none) (d := {}) (v := .object []) "timeout" "" ""
      (by simp [hlocation]) (by rwa [hlocation]) rfl rfl
    rw [hlocation] at hrun
    have hstage := failsUnless_quoting (e := builtinEngine) (w := { surroundings := barren none }) rfl
      isRetried_weather rfl hrun rfl (isPassing_unknownPlace "timeout")
    exact h.not_napsFirst (hstage.napsFirst_iff.mpr hpassing)
  · decide +kernel

end Engine

end PipeScript
