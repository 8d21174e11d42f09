import PipeScript.Proofs.Syntax.Beginning
import PipeScript.Proofs.Syntax.Printing

/-!
# What has been read can be completed

The reader takes a token only where some script goes on with it. So the beginning of a text that has
been read is the beginning of a script, and where a token cannot be taken no script goes on with it.

The last token of a beginning needs care: behind it another character may stand in the script than in
the text. A word spelled like a keyword, which is a word only because a letter follows that words are
not made of, then becomes the keyword; but tokens that can open a stage all stand in the same places
(`Reading.exists_take_of_opens`).

Main results: a reading can always be completed (`Reading.exists_completion`); a beginning that has
been read can be extended to a script (`accepted_of_feed`); and no script begins with a token that
cannot be taken (`not_accepted_of_take`).
-/

namespace PipeScript.Syntax

/-- Is the text a script? -/
def Accepted (s : List Char) : Prop := ∃ p, parse s = .ok p

theorem accepted_iff {s : List Char} : Accepted s ↔
    ∃ ts r p, Cut s ts ∧ Reading.start.feed ts = some r ∧ r.program? = some p := by
  constructor
  · rintro ⟨p, hp⟩
    obtain ⟨d, hcut, rfl⟩ := parse_iff_exists_derivation.mp hp
    obtain ⟨r, hf, hr⟩ := Reading.feed_derivation d
    exact ⟨_, r, _, hcut, hf, hr⟩
  · rintro ⟨ts, r, p, hcut, hf, hr⟩
    obtain ⟨d, rfl, rfl⟩ := (Reading.feed_start_iff ts p).mp ⟨r, hf, hr⟩
    exact ⟨_, parse_iff_exists_derivation.mpr ⟨d, hcut, rfl⟩⟩

namespace Reading

/-! ### Completing a reading -/

theorem exists_take_due {a : Token} (ha : Opens a) (frames : List Frame)
    (statements : List Statement) (stages : List Stage) :
    ∃ r, take ⟨frames, statements, stages, .due⟩ a = .ok r := by
  obtain ⟨progress, hp⟩ := Option.isSome_iff_exists.mp ha
  exact ⟨⟨frames, statements, stages, progress⟩, by simp only [take, hp]⟩

/-- **Tokens that can open a stage stand in the same places.** -/
theorem exists_take_of_opens {r r' : Reading} {a b : Token} (ha : Opens a) (hb : Opens b)
    (h : r.take a = .ok r') : ∃ r'', r.take b = .ok r'' := by
  cases hc : r.chain? with
  | some chain =>
    rw [take_of_opens ⟨rfl, rfl, hc⟩ hb]
    exact exists_take_due hb ..
  | none =>
    obtain ⟨frames, statements, stages, progress⟩ := r
    have hnot : progress ≠ .due → take ⟨frames, statements, stages, progress⟩ a ≠ .ok r' := by
      intro hdue hok
      cases a with
      | word w => cases progress <;> simp_all [take, chain?]
      | keyword k w => cases progress <;> simp_all [take, chain?]
      | quoted w => exact not_opens_quoted w ha
      | arrow => exact not_opens_arrow ha
      | closeBrace => exact not_opens_closeBrace ha
      | openBrace => simp [Opens, opening?] at ha
    obtain rfl : progress = .due := by
      by_contra hdue
      exact hnot hdue h
    exact exists_take_due hb ..

/-- A command's name to fill places with. -/
def filler : String := "a"

theorem isAction_filler : Stage.IsAction filler :=
  ⟨⟨'a', [], rfl, .inr rfl, by simp⟩, fun k => by cases k <;> decide⟩

/-- A block of one command is read where the block is due. -/
theorem feed_filler (r : Reading) (o : Opener) (h : r.take .openBrace = .ok (r.openBlock o)) :
    ∃ r' chain, r.feed (Tree.braced [.word filler.toList]) = some r' ∧
      r'.Completes r.frames r.statements chain := by
  have hp : Tree.BlockProper [[.command filler.toList []]] :=
    ⟨⟨by simp, by simp [Tree.Proper], trivial⟩, trivial⟩
  obtain ⟨r', hf, hr⟩ := feed_braced (by simp) hp r o h
  exact ⟨r', _, hf, hr⟩

theorem separable_filler : ∀ t ∈ Tree.braced [.word filler.toList], Separable t := by
  refine separable_braced fun t ht => ?_
  obtain rfl := List.mem_singleton.mp ht
  exact separable_word isAction_filler

/-- However far the stage at hand has come, it can be completed. -/
theorem exists_completes (r : Reading) : ∃ ts r' chain, (∀ t ∈ ts, Separable t) ∧
    r.feed ts = some r' ∧ r'.Completes r.frames r.statements chain := by
  obtain ⟨frames, statements, stages, progress⟩ := r
  cases progress with
  | due =>
    refine ⟨[.word filler.toList], _, _, ?_, rfl, rfl, rfl, rfl⟩
    simpa using separable_word isAction_filler
  | command action arguments => exact ⟨[], _, _, by simp, rfl, rfl, rfl, rfl⟩
  | closed => exact ⟨[], _, _, by simp, rfl, rfl, rfl, rfl⟩
  | conditionDue =>
    let condition := quote '"' filler.toList
    obtain ⟨r', chain, hf, hr⟩ :=
      feed_filler ⟨frames, statements, stages, .blockDue (.guard (unquote condition))⟩ _ rfl
    refine ⟨.quoted condition :: Tree.braced [.word filler.toList], r', chain, ?_, hf, hr⟩
    exact List.forall_mem_cons.mpr ⟨Quotes.double.separable, separable_filler⟩
  | strategyDue =>
    obtain ⟨r', chain, hf, hr⟩ := feed_filler ⟨frames, statements, stages, .strategyDue⟩ _ rfl
    exact ⟨_, r', chain, separable_filler, hf, hr⟩
  | blockDue o =>
    obtain ⟨r', chain, hf, hr⟩ := feed_filler ⟨frames, statements, stages, .blockDue o⟩ _ rfl
    exact ⟨_, r', chain, separable_filler, hf, hr⟩

/-- Once the chain at hand is complete, closing the open blocks makes a program. -/
theorem exists_program_of_completes {frames : List Frame} {statements : List Statement}
    {chain : List Stage} {r : Reading} (h : r.Completes frames statements chain) :
    ∃ r' p, r.feed (List.replicate frames.length .closeBrace) = some r' ∧ r'.program? = some p := by
  induction frames generalizing r statements chain with
  | nil =>
    obtain ⟨hf, -, hc⟩ := h
    exact ⟨r, ⟨(chain.reverse :: r.statements).reverse⟩, rfl, by simp only [program?, hf, hc]⟩
  | cons f frames ih =>
    simp only [List.length_cons, List.replicate_succ, feed, take_closeBrace h]
    have hclosed : Completes ⟨frames, f.statements, f.opener.close
        (chain.reverse :: statements).reverse :: f.stages, .closed⟩ frames f.statements _ :=
      ⟨rfl, rfl, rfl⟩
    exact ih hclosed

/-- **Every reading can be completed**: some tokens that layout keeps apart make a program of it. -/
theorem exists_completion (r : Reading) : ∃ ts r' p, (∀ t ∈ ts, Separable t) ∧
    r.feed ts = some r' ∧ r'.program? = some p := by
  obtain ⟨ts, r₁, chain, hts, hf, hr⟩ := r.exists_completes
  obtain ⟨r₂, p, hf', hp⟩ := exists_program_of_completes hr
  refine ⟨ts ++ List.replicate r.frames.length .closeBrace, r₂, p, ?_, ?_, hp⟩
  · refine List.forall_mem_append.mpr ⟨hts, fun t ht => ?_⟩
    rw [List.eq_of_mem_replicate ht]
    exact fun _ _ => .closeBrace
  · rw [feed_append, hf]
    exact hf'

end Reading

/-! ### Extending a beginning -/

theorem endsWord_newline (v : List Char) : EndsWord ('\n' :: v) := by
  rintro c ⟨⟩
  decide

/-- Before a newline, the spelling of a token is a token too: the same one, or a keyword in place of a
word. -/
theorem Leads.exists_before_newline {t : Token} {rest : List Char} (h : Leads t rest) :
    ∃ t', t'.spelling = t.spelling ∧ (∀ v, Leads t' ('\n' :: v)) ∧ (t' = t ∨ Opens t ∧ Opens t') := by
  cases h with
  | @keyword k t _ ht _ =>
    exact ⟨.keyword k t, rfl, fun v => .keyword ht (endsWord_newline v), .inl rfl⟩
  | @word t _ ht hr hk =>
    by_cases hkey : ∃ k, KeywordSpelling k t
    · obtain ⟨k, hkey⟩ := hkey
      refine ⟨.keyword k t, rfl, fun v => .keyword hkey (endsWord_newline v), .inr ⟨rfl, ?_⟩⟩
      cases k <;> rfl
    · refine ⟨.word t, rfl, fun v => ?_, .inl rfl⟩
      have hv : ∀ c ∈ ('\n' :: v).head?, isWordPart c = false := by
        rintro c ⟨⟩
        decide
      refine .word ht hv fun hstart => hkey ?_
      exact ((startsWithKeyword_append_iff ht hv).mp hstart).1
  | quoted hm ht => exact ⟨_, rfl, fun _ => .quoted hm ht, .inl rfl⟩
  | arrow => exact ⟨_, rfl, fun _ => .arrow, .inl rfl⟩
  | openBrace => exact ⟨_, rfl, fun _ => .openBrace, .inl rfl⟩
  | closeBrace => exact ⟨_, rfl, fun _ => .closeBrace, .inl rfl⟩

/-- A beginning that has been read can be read before a newline too. -/
theorem CutBefore.exists_before_newline {u rest : List Char} {ts : List Token} {r r' : Reading}
    (h : CutBefore u ts rest) (hf : r.feed ts = some r') :
    ∃ us r'', (∀ v, CutBefore u us ('\n' :: v)) ∧ r.feed us = some r'' := by
  induction h generalizing r with
  | done => exact ⟨[], r, fun _ => .done, rfl⟩
  | layout hc _ ih =>
    obtain ⟨us, r'', hu, hr⟩ := ih hf
    exact ⟨us, r'', fun v => .layout hc (hu v), hr⟩
  | @comment body u rest ts hb hs _ ih =>
    obtain ⟨us, r'', hu, hr⟩ := ih hf
    refine ⟨us, r'', fun v => .comment hb ?_ (hu v), hr⟩
    cases u with
    | nil =>
      rintro c ⟨⟩
      rfl
    | cons d u => exact hs
  | @token t u rest ts ht _ ih =>
    simp only [Reading.feed] at hf
    cases hr : r.take t with
    | error e => simp [hr] at hf
    | ok r₁ =>
      cases u with
      | nil =>
        -- the last token, behind which another character may have stood
        obtain ⟨t', hsp, hlead, hsame⟩ := ht.exists_before_newline
        obtain ⟨r₂, hr₂⟩ : ∃ r₂, r.take t' = .ok r₂ := by
          rcases hsame with rfl | ⟨hopens, hopens'⟩
          · exact ⟨r₁, hr⟩
          · exact Reading.exists_take_of_opens hopens hopens' hr
        refine ⟨[t'], r₂, fun v => ?_, by simp only [Reading.feed, hr₂]⟩
        rw [← hsp]
        exact .token (hlead v) .done
      | cons c u =>
        obtain ⟨us, r'', hu, hrest⟩ := ih (by simpa [hr] using hf)
        refine ⟨t :: us, r'', fun v => .token (ht.congr rfl) (hu v), ?_⟩
        simp only [Reading.feed, hr, hrest]

/-- **A beginning that has been read can be extended to a script**, with a newline behind it. -/
theorem accepted_of_feed {u rest : List Char} {ts : List Token} {r : Reading}
    (h : CutBefore u ts rest) (hf : Reading.start.feed ts = some r) :
    ∃ v, Accepted (u ++ '\n' :: v) := by
  obtain ⟨us, r₁, hu, hr₁⟩ := h.exists_before_newline hf
  obtain ⟨vs, r₂, p, hvs, hr₂, hp⟩ := r₁.exists_completion
  obtain ⟨v, hv⟩ := laid_of_spelling vs
  have hcut : Cut ('\n' :: v) vs := .layout rfl (cut_of_laid hv hvs)
  refine ⟨v, accepted_iff.mpr ⟨us ++ vs, r₂, p, (hu v).append hcut, ?_, hp⟩⟩
  rw [Reading.feed_append, hr₁]
  exact hr₂

/-! ### Tokens with which no script goes on -/

/-- Tokens that can open a stage start with a word character; the others start with none, and are the
same whatever follows them. -/
theorem Leads.opens_or_anywhere {t : Token} {rest : List Char} {c : Char} {cs : List Char}
    (h : Leads t rest) (hs : t.spelling = c :: cs) :
    Opens t ∧ Text.isWord c = true ∨ Text.isWord c = false ∧ ∀ v, Leads t v := by
  cases h with
  | @keyword k t _ ht _ =>
    obtain ⟨d, ds, rfl, hd⟩ := ht.eq_cons
    obtain ⟨rfl, rfl⟩ := List.cons.inj hs
    exact .inl ⟨by cases k <;> rfl, isWord_of_spells (isLower_firstLetter k) hd⟩
  | @word t _ ht _ _ =>
    obtain rfl : t = c :: cs := hs
    exact .inl ⟨rfl, isWord_of_isWordPart (ht.isWordPart c (List.mem_cons_self ..))⟩
  | quoted hm ht =>
    obtain ⟨rfl, rfl⟩ := List.cons.inj hs
    refine .inr ⟨?_, fun _ => .quoted hm ht⟩
    rcases hm with rfl | rfl <;> rfl
  | arrow =>
    obtain ⟨rfl, rfl⟩ := List.cons.inj hs
    exact .inr ⟨rfl, fun _ => .arrow⟩
  | openBrace =>
    obtain ⟨rfl, rfl⟩ := List.cons.inj hs
    exact .inr ⟨rfl, fun _ => .openBrace⟩
  | closeBrace =>
    obtain ⟨rfl, rfl⟩ := List.cons.inj hs
    exact .inr ⟨rfl, fun _ => .closeBrace⟩

/-- Where the spelling of a token is gone on with in another way, the token that then stands there is
the same one, or both can open a stage. -/
theorem Leads.eq_or_opens {t t' : Token} {rest rest' v : List Char} (h : Leads t rest)
    (h' : Leads t' rest') (heq : t'.spelling ++ rest' = t.spelling ++ v) :
    t' = t ∨ Opens t' ∧ Opens t := by
  obtain ⟨c, cs, hs, -⟩ := h.eq_cons
  obtain ⟨c', cs', hs', -⟩ := h'.eq_cons
  obtain rfl : c' = c := by
    rw [hs, hs'] at heq
    exact (List.cons.inj heq).1
  rcases h.opens_or_anywhere hs with ⟨hopens, hc⟩ | ⟨hc, hall⟩
  · rcases h'.opens_or_anywhere hs' with ⟨hopens', -⟩ | ⟨hc', -⟩
    · exact .inr ⟨hopens', hopens⟩
    · rw [hc] at hc'
      cases hc'
  · have ht' := tokenAt?_of_leads h'
    rw [heq, tokenAt?_of_leads (hall v)] at ht'
    exact .inl (Option.some.inj ht').symm

/-- A text that starts with a token's first character is cut into some token first. -/
theorem Cut.exists_cons {t : Token} {rest v : List Char} {us : List Token} (ht : Leads t rest)
    (h : Cut (t.spelling ++ v) us) : ∃ t' us' rest', us = t' :: us' ∧ Leads t' rest' ∧
      t'.spelling ++ rest' = t.spelling ++ v := by
  obtain ⟨c, cs, hs, hlayout, hhash⟩ := ht.eq_cons_of_start
  generalize heq : t.spelling ++ v = s at h
  rw [hs, List.cons_append] at heq
  cases h with
  | done => cases heq
  | layout hc _ =>
    obtain ⟨rfl, -⟩ := List.cons.inj heq
    rw [hlayout] at hc
    cases hc
  | comment _ _ _ => exact absurd (List.cons.inj heq).1 hhash
  | @token t' rest' us' ht' _ => exact ⟨t', us', rest', rfl, ht', rfl⟩

/-- **No script begins with a token that cannot be taken**, together with what stands before it. -/
theorem not_accepted_of_take {u rest : List Char} {ts : List Token} {t : Token} {r : Reading}
    {expected : List Terminal} (h : CutBefore u ts (t.spelling ++ rest)) (ht : Leads t rest)
    (hf : Reading.start.feed ts = some r) (hr : r.take t = .error expected) (v : List Char) :
    ¬ Accepted (u ++ (t.spelling ++ v)) := by
  intro haccepted
  obtain ⟨us, r₁, p, hcut, hr₁, -⟩ := accepted_iff.mp haccepted
  have hhead : (t.spelling ++ v).head? = (t.spelling ++ rest).head? := by
    obtain ⟨c, cs, hs, -⟩ := ht.eq_cons
    rw [hs]
    rfl
  obtain ⟨vs, rfl, hvs⟩ := (h.congr hhead).exists_append hcut
  obtain ⟨t', us', rest', rfl, ht', heq⟩ := hvs.exists_cons ht
  rw [Reading.feed_append, hf, Option.bind_some, Reading.feed] at hr₁
  cases hr' : r.take t' with
  | error e => simp [hr'] at hr₁
  | ok r' =>
    rcases ht.eq_or_opens ht' heq with rfl | ⟨hopens', hopens⟩
    · rw [hr] at hr'
      cases hr'
    · obtain ⟨r'', hr''⟩ := Reading.exists_take_of_opens hopens' hopens hr'
      rw [hr] at hr''
      cases hr''

end PipeScript.Syntax
