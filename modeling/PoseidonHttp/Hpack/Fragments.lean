import PoseidonHttp.Hpack.Streaming
import PoseidonHttp.Lib.Incremental

/-!
# Fragments against whole blocks

A block fed in fragments is decoded as if it had come in one piece. Two facts about
one representation carry this: an answer other than truncation does not change when
more bytes follow (`decodeOne_stands`), and a truncated representation leaves decoder
and visitor as they were (`decodeOne_truncated`), so that it can be tried again when
the next fragment is there.

`streamed_eq_decodeBlock` is the comparison, for any visitor: since a visitor may keep
what it is shown, equal visitor states mean the same fields in the same order.
-/

namespace Hpack

open Header (Bytes Field)
open Incremental (Parser Result)

namespace Decoder

variable {σ E : Type*} {src : Bytes}

/-! ## One representation -/

theorem parseLiteralName_stands {d : Decoder} {idx : ℕ} (more : Bytes)
    (h : (d.parseLiteralName idx src : Except (Fault E) _) ≠ .error (.err .truncated)) :
    (d.parseLiteralName idx (src ++ more) : Except (Fault E) _) = d.parseLiteralName idx src := by
  unfold parseLiteralName at h ⊢
  by_cases h0 : idx = 0
  · rw [if_pos h0] at h
    rw [if_pos h0, if_pos h0, decodeStringLiteral_stands]
    intro he
    rw [he] at h
    exact h rfl
  · rw [if_neg h0, if_neg h0]

/-- The value begins where the name ends, and more bytes may follow it. -/
theorem parseLiteral_stands {d : Decoder} {bits : ℕ} (more : Bytes)
    (h : (d.parseLiteral src bits : Except (Fault E) _) ≠ .error (.err .truncated)) :
    (d.parseLiteral (src ++ more) bits : Except (Fault E) _) = d.parseLiteral src bits := by
  unfold parseLiteral at h ⊢
  have hindex : decodeInteger (src ++ more) bits = decodeInteger src bits := by
    apply decodeInteger_stands
    intro he
    rw [he] at h
    exact h rfl
  rw [hindex]
  cases hint : decodeInteger src bits with
  | error e => rfl
  | ok r =>
    rw [hint] at h
    dsimp only at h ⊢
    have hle := (decodeInteger_size hint).2
    have hliteral : (d.parseLiteralName r.1 (src.drop r.2 ++ more) : Except (Fault E) _) =
        d.parseLiteralName r.1 (src.drop r.2) := by
      apply parseLiteralName_stands
      intro he
      rw [he] at h
      exact h rfl
    rw [List.drop_append_of_le_length hle, hliteral]
    cases hname : (d.parseLiteralName r.1 (src.drop r.2) : Except (Fault E) _) with
    | error e => rfl
    | ok nm =>
      rw [hname] at h
      dsimp only at h ⊢
      have hnb := parseLiteralName_le hname
      rw [List.length_drop] at hnb
      rw [List.drop_append_of_le_length (by omega), decodeStringLiteral_stands]
      intro he
      rw [he] at h
      exact h rfl

variable (visit : Visitor σ E)

theorem guardedVisitor_ne_truncated (s : Decoder × σ) (f : Field) :
    (guardedVisitor visit s f).2 ≠ some (.err .truncated) := by
  unfold guardedVisitor
  dsimp only
  split_ifs
  · cases (visit s.2 f).2 <;> simp
  · simp
  · cases (visit s.2 f).2 <;> simp

theorem visited_ne_truncated (s : Decoder × σ) (f : Field) (n : ℕ) :
    (visited visit s f n).2 ≠ .error (.err .truncated) := by
  have hguard := guardedVisitor_ne_truncated visit s f
  unfold visited
  cases hg : guardedVisitor visit s f with
  | mk s' fault =>
    rw [hg] at hguard
    cases fault with
    | none =>
      intro h
      cases h
    | some e =>
      intro h
      rw [Except.error.injEq] at h
      subst h
      exact hguard rfl

/-- An answer other than truncation stands whatever bytes follow. -/
theorem decodeOne_stands (s : Decoder × σ) (more : Bytes)
    (h : (decodeOne visit s src).2 ≠ .error (.err .truncated)) :
    decodeOne visit s (src ++ more) = decodeOne visit s src := by
  cases src with
  | nil => exact absurd rfl h
  | cons b rest =>
    simp only [decodeOne, List.cons_append] at h ⊢
    have hint : ∀ n, decodeInteger (b :: rest) n ≠ .error .truncated →
        decodeInteger (b :: (rest ++ more)) n = decodeInteger (b :: rest) n :=
      fun n => decodeInteger_stands more
    have hlit : ∀ n, (s.1.parseLiteral (b :: rest) n : Except (Fault E) _) ≠
          .error (.err .truncated) →
        (s.1.parseLiteral (b :: (rest ++ more)) n : Except (Fault E) _) =
          s.1.parseLiteral (b :: rest) n :=
      fun n => parseLiteral_stands more
    -- a branch is read again as it was, since what it parsed stands
    split_ifs at h ⊢
    · rw [hint]
      intro he
      rw [he] at h
      exact h rfl
    · rw [hlit]
      intro he
      rw [he] at h
      exact h rfl
    · rw [hint]
      intro he
      rw [he] at h
      exact h rfl
    · rw [hlit]
      intro he
      rw [he] at h
      exact h rfl
    · rw [hlit]
      intro he
      rw [he] at h
      exact h rfl
    · rfl

/-- A representation that is not all there changes nothing. -/
theorem decodeOne_truncated (s : Decoder × σ) (src : Bytes)
    (h : (decodeOne visit s src).2 = .error (.err .truncated)) :
    decodeOne visit s src = (s, .error (.err .truncated)) := by
  refine Prod.ext ?_ h
  cases src with
  | nil => rfl
  | cons b rest =>
    have hvisited : ∀ s f n, (visited visit s f n).2 = .error (.err .truncated) → False :=
      fun s f n => visited_ne_truncated visit s f n
    simp only [decodeOne] at h ⊢
    split_ifs at h ⊢
    · split at h
      · rfl
      · split at h
        · rfl
        · exact (hvisited _ _ _ h).elim
    · split at h
      · rfl
      · split at h
        · rfl
        · exact (hvisited _ _ _ h).elim
    · split at h
      · rfl
      · split_ifs at h ⊢
        · rfl
        · split at h
          · rfl
          · cases h
    · split at h
      · rfl
      · exact (hvisited _ _ _ h).elim
    · split at h
      · rfl
      · exact (hvisited _ _ _ h).elim
    · rfl

/-! ## The loop of a fragment -/

/-- A representation as an item of an incremental parser: one that is not all there waits, and an
error comes with the decoder and visitor it leaves. -/
def parser : Parser (Decoder × σ) UInt8 (Fault E × (Decoder × σ)) where
  step s src := some <|
    match decodeOne visit s src with
    | (_, .error (.err .truncated)) => .wait
    | (s, .error e) => .fail (e, s)
    | (s, .ok n) => .take n s
  size {s _ src n} h := by
    split at h
    · cases h
    · cases h
    · rename_i heq
      cases h
      exact decodeOne_size visit s src (by rw [heq])
  stands {s src} more _ h := by
    have htruncated : (decodeOne visit s src).2 ≠ .error (.err .truncated) := by
      intro he
      rw [decodeOne_truncated visit s src he] at h
      exact h rfl
    rw [decodeOne_stands visit s more htruncated]

end Decoder

namespace Session

variable {σ E : Type*} (visit : Visitor σ E)

/-- `Feed` of fragments in order, until one fails. -/
def feedAll : Session → σ → List Bytes → (Session × σ) × Option (SessionFault E)
  | s, v, [] => ((s, v), none)
  | s, v, fragment :: fragments =>
    match s.feed visit v fragment with
    | ((s, v), some e) => ((s, v), some e)
    | ((s, v), none) => feedAll s v fragments

/-- `Begin`, `Feed` of each fragment until one fails, `Finish`; the error is the
first there is. -/
def streamed (s : Session) (v : σ) (fragments : List Bytes) :
    (Session × σ) × Option (SessionFault E) :=
  let fed := feedAll visit s.begin v fragments
  let finished : Session × Option (SessionFault E) := fed.1.1.finish
  ((finished.1, fed.1.2), fed.2.or finished.2)

/-- What a streamed block reports for an error of the whole block. -/
def reported : Fault E → SessionFault E
  | .err .truncated => .truncated
  | e => .decode e

/-- What a call comes to, given the bytes it was called on: decoder and visitor, what is left,
and the error. -/
def outcome (src : Bytes) : Result (Decoder × σ) (Fault E × (Decoder × σ)) →
    Option ((Decoder × σ) × Bytes × Option (Fault E)) :=
  Option.map fun
    | (n, s, none) => (s, src.drop n, none)
    | (n, _, some (e, s)) => (s, src.drop n, some e)

theorem outcome_after (src : Bytes) (n : ℕ) (r : Result (Decoder × σ) (Fault E × (Decoder × σ))) :
    outcome src (r.after n) = outcome (src.drop n) r := by
  rcases r with _ | ⟨m, s, _ | ⟨e, s'⟩⟩
  · rfl
  · simp [outcome, Result.after, List.drop_drop]
  · simp [outcome, Result.after, List.drop_drop]

/-- The loop of a fragment is the incremental parser. -/
theorem decodePartialFrom_eq (fuel : ℕ) (s : Decoder × σ) (src : Bytes) (h : src.length ≤ fuel) :
    outcome src ((Decoder.parser visit).parse s src) = some (decodePartialFrom visit fuel s src) := by
  induction fuel generalizing s src with
  | zero =>
    obtain rfl := List.length_eq_zero_iff.mp (Nat.le_zero.mp h)
    rfl
  | succ fuel ih =>
    cases src with
    | nil => rfl
    | cons b src =>
      rw [Parser.parse_eq _ (List.cons_ne_nil b src), decodePartialFrom]
      · simp only [Decoder.parser]
        cases hone : Decoder.decodeOne visit s (b :: src) with
        | mk s' r =>
          cases r with
          | ok n =>
            have hsize := Decoder.decodeOne_size visit s (b :: src) (by rw [hone])
            rw [← ih s' ((b :: src).drop n), ← outcome_after]
            · rfl
            · simp only [List.length_drop, List.length_cons] at h ⊢
              omega
          | error e =>
            cases e with
            | err e =>
              cases e with
              | truncated =>
                -- not all there: it waits for the next fragment
                have hsame := Decoder.decodeOne_truncated visit s (b :: src) (by rw [hone])
                rw [← hone, hsame]
                rfl
              | _ => rfl
            | visit | panic => rfl
      · exact List.cons_ne_nil b src

theorem decodePartialFrom_ne_truncated (fuel : ℕ) (s : Decoder × σ) (src : Bytes) :
    (decodePartialFrom visit fuel s src).2.2 ≠ some (.err .truncated) := by
  induction fuel generalizing s src with
  | zero => simp [decodePartialFrom]
  | succ fuel ih =>
    cases src with
    | nil => simp [decodePartialFrom]
    | cons b src =>
      rw [decodePartialFrom]
      · split
        · simp
        · rename_i hne _
          intro he
          exact hne (Option.some.inj he)
        · exact ih _ _
      · exact List.cons_ne_nil b src

/-- Fragments fed to an open session are chunks fed to the parser: what they leave is what the
session keeps, unless one of them fails. -/
theorem feedAll_of_feed (fragments : List Bytes) {s : Session} {v : σ} {x : Decoder × σ}
    {rest : Bytes} {e : Option (Fault E)} (hs : s.streaming = true)
    (h : outcome (s.pending ++ fragments.flatten) (Incremental.feed (Decoder.parser visit).parse
      (s.dec, v) s.pending fragments) = some (x, rest, e)) :
    ∃ pending, feedAll visit s v fragments = ((⟨x.1, true, pending⟩, x.2), e.map .decode) ∧
      (e = none → pending = rest) := by
  induction fragments generalizing s v with
  | nil =>
    cases h
    exact ⟨s.pending, by rw [← hs]; rfl, fun _ => by simp⟩
  | cons fragment fragments ih =>
    have hpartial := decodePartialFrom_eq visit _ (s.dec, v) (s.pending ++ fragment) (Nat.le_refl _)
    rw [List.flatten_cons, ← List.append_assoc, Incremental.feed] at h
    simp only [feedAll, feed, if_pos hs]
    rcases hparse : (Decoder.parser visit).parse (s.dec, v) (s.pending ++ fragment) with
      _ | ⟨n, s', _ | ⟨e', s'⟩⟩
    · rw [hparse] at hpartial
      cases hpartial
    · rw [hparse] at hpartial h
      rw [← Option.some.inj hpartial]
      have hle := Parser.Items.le _ (Parser.items_of_parse _ hparse).1
      rw [outcome_after, List.drop_append_of_le_length hle] at h
      exact ih hs h
    · rw [hparse] at hpartial h
      rw [← Option.some.inj hpartial]
      cases h
      exact ⟨s.pending ++ fragment, by rw [← hs]; rfl, fun he => by cases he⟩

/-- A block in fragments is decoded as the whole block: the same decoder, the same
visitor state, the same error, with truncation reported by `Finish`. -/
theorem streamed_eq_decodeBlock (s : Session) (v : σ) (fragments : List Bytes) :
    (streamed visit s v fragments).1.1.dec =
        (Decoder.decodeBlock visit s.dec v fragments.flatten).1.1 ∧
      (streamed visit s v fragments).1.2 =
        (Decoder.decodeBlock visit s.dec v fragments.flatten).1.2 ∧
      (streamed visit s v fragments).2 =
        (Decoder.decodeBlock visit s.dec v fragments.flatten).2.map reported := by
  have hpartial := decodePartialFrom_eq visit _ (s.begin.dec, v) fragments.flatten (Nat.le_refl _)
  have hwhole := decodeFragmentFrom_eq visit _ (s.begin.dec, v) fragments.flatten (Nat.le_refl _)
  have hne := decodePartialFrom_ne_truncated visit fragments.flatten.length (s.begin.dec, v)
    fragments.flatten
  have hfeed : Incremental.feed (Decoder.parser visit).parse (s.begin.dec, v) [] fragments =
      (Decoder.parser visit).parse (s.begin.dec, v) fragments.flatten :=
    Parser.feed_eq _ fragments rfl
  rcases hrun : decodePartialFrom visit fragments.flatten.length (s.begin.dec, v)
    fragments.flatten with ⟨x, rest, e⟩
  rw [hrun] at hpartial hwhole hne
  rw [← hfeed] at hpartial
  rcases feedAll_of_feed visit fragments rfl hpartial with ⟨pending, hfed, hpending⟩
  have hblock : Decoder.decodeBlock visit s.dec v fragments.flatten = _ := hwhole
  unfold streamed
  rw [hfed, hblock]
  cases e with
  | none =>
    rw [hpending rfl]
    by_cases hrest : rest = [] <;> simp [finish, hrest, reported]
  | some e =>
    refine ⟨rfl, rfl, ?_⟩
    cases e with
    | err e' =>
      cases e' with
      | truncated => exact absurd rfl hne
      | _ => rfl
    | visit | panic => rfl

end Session

end Hpack
