import AccessControl.Cache.Wire
import Mathlib.Data.List.Nodup
import Mathlib.Tactic.IntervalCases

/-!
JSON text that is printed from texts, lists and objects is read back as the same value.
-/

namespace AccessControl

/-- A value of texts, lists and objects, nested only so deep, in which no object has two fields of
one name. -/
inductive Value.Fits : Nat → Value → Prop where
  | text (n : Nat) (s : String) : Fits n (.text s)
  | empty (n : Nat) : Fits n (.list [])
  | list {n : Nat} {vs : List Value} (h : ∀ v ∈ vs, Fits n v) : Fits (n + 1) (.list vs)
  | object {n : Nat} {fs : Value.Fields} (hkeys : (fs.map Prod.fst).Nodup)
    (h : ∀ f ∈ fs, Fits n f.2) : Fits (n + 1) (.object fs)

theorem Value.Fields.put_new {fs : Value.Fields} {k : String} (h : k ∉ fs.map Prod.fst)
    (v : Value) : fs.put k v = fs ++ [(k, v)] := by
  induction fs with
  | nil => rfl
  | cons f fs ih =>
    rw [List.map_cons, List.mem_cons, not_or] at h
    rw [put, if_neg (Ne.symm h.1), ih h.2]
    rfl

namespace Json

open Text (apostrophe quotation backslash)

/-! Characters and tokens. -/

def Token.isApart : Token → Bool
  | .null | .bool _ | .int _ | .real _ => false
  | _ => true

section Lexing

variable (word : List Char → Option Token)

theorem foldlM_escape (read : List Char) (ts : List Token) (c : Char) :
    (escape c).foldlM (Lexer.step word) ⟨.text read, ts⟩ = some ⟨.text (c :: read), ts⟩ := by
  rw [escape]
  split
  case isTrue h => rcases h with rfl | rfl <;> rfl
  case isFalse h =>
    split
    case isTrue hc =>
      obtain ⟨n, hn, rfl⟩ : ∃ n < 0x20, c = Char.ofNat n :=
        ⟨c.toNat, hc, (Char.ofNat_toNat c).symm⟩
      interval_cases n <;> rfl
    case isFalse hc =>
      rw [not_or] at h
      simp only [List.foldlM_cons, List.foldlM_nil, Lexer.step, if_neg h.1, if_neg h.2, if_neg hc]
      rfl

theorem foldlM_escapes (read : List Char) (ts : List Token) (cs : List Char) :
    (cs.flatMap escape).foldlM (Lexer.step word) ⟨.text read, ts⟩ =
      some ⟨.text (cs.reverse ++ read), ts⟩ := by
  induction cs generalizing read with
  | nil => rfl
  | cons c cs ih =>
    rw [List.flatMap_cons, List.foldlM_append, foldlM_escape]
    change (cs.flatMap escape).foldlM (Lexer.step word) ⟨.text (c :: read), ts⟩ = _
    rw [ih, List.reverse_cons, List.append_assoc]
    rfl

theorem foldlM_token {t : Token} (ht : t.isApart) (ts : List Token) :
    t.chars.foldlM (Lexer.step word) ⟨.between, ts⟩ = some ⟨.between, t :: ts⟩ := by
  cases t with
  | text s =>
    have hread : String.ofList (s.toList.reverse ++ []).reverse = s := by
      rw [List.append_nil, List.reverse_reverse, String.ofList_toList]
    rw [Token.chars, List.cons_append, List.foldlM_cons]
    change (s.toList.flatMap escape ++ [quotation]).foldlM (Lexer.step word) ⟨.text [], ts⟩ = _
    rw [List.foldlM_append, foldlM_escapes]
    change some (Lexer.mk .between (.text (String.ofList _) :: ts)) = _
    rw [hread]
  | null | bool | int | real => cases ht
  | _ => rfl

theorem tokensBy?_chars {ts : List Token} (hts : ∀ t ∈ ts, t.isApart) :
    tokensBy? word (ts.flatMap Token.chars) = some ts := by
  have hfold (read : List Token) : (ts.flatMap Token.chars).foldlM (Lexer.step word)
      ⟨.between, read⟩ = some ⟨.between, ts.reverse ++ read⟩ := by
    induction ts generalizing read with
    | nil => rfl
    | cons t ts ih =>
      rw [List.flatMap_cons, List.foldlM_append, foldlM_token word (hts t List.mem_cons_self)]
      change (ts.flatMap Token.chars).foldlM (Lexer.step word) ⟨.between, t :: read⟩ = _
      rw [ih fun u hu => hts u (List.mem_cons_of_mem _ hu), List.reverse_cons, List.append_assoc]
      rfl
  rw [tokensBy?, hfold, List.append_nil, Option.bind_some, Lexer.finish, List.reverse_reverse]

end Lexing

/-! Values. -/

theorem mem_restTokens {vs : List Value} {t : Token} (ht : t ∈ restTokens vs) :
    t = .comma ∨ ∃ v ∈ vs, t ∈ tokens v := by
  induction vs with
  | nil => simp [restTokens] at ht
  | cons v vs ih =>
    rw [restTokens, List.cons_append, List.mem_cons, List.mem_append] at ht
    rcases ht with ht | ht | ht
    · exact .inl ht
    · exact .inr ⟨v, List.mem_cons_self, ht⟩
    · obtain h | ⟨w, hw, h⟩ := ih ht
      · exact .inl h
      · exact .inr ⟨w, List.mem_cons_of_mem _ hw, h⟩

theorem mem_restFieldTokens {fs : Value.Fields} {t : Token} (ht : t ∈ restFieldTokens fs) :
    t = .comma ∨ t = .colon ∨ (∃ k, t = .text k) ∨ ∃ f ∈ fs, t ∈ tokens f.2 := by
  induction fs with
  | nil => simp [restFieldTokens] at ht
  | cons f fs ih =>
    rw [restFieldTokens, List.cons_append, List.cons_append, List.cons_append, List.mem_cons,
      List.mem_cons, List.mem_cons, List.mem_append] at ht
    rcases ht with ht | ht | ht | ht | ht
    · exact .inl ht
    · exact .inr (.inr (.inl ⟨_, ht⟩))
    · exact .inr (.inl ht)
    · exact .inr (.inr (.inr ⟨f, List.mem_cons_self, ht⟩))
    · obtain h | h | h | ⟨g, hg, h⟩ := ih ht
      · exact .inl h
      · exact .inr (.inl h)
      · exact .inr (.inr (.inl h))
      · exact .inr (.inr (.inr ⟨g, List.mem_cons_of_mem _ hg, h⟩))

theorem isApart_of_fits {n : Nat} {v : Value} (hv : v.Fits n) : ∀ t ∈ tokens v, t.isApart := by
  induction hv with
  | text | empty => simp [tokens, Token.isApart]
  | @list n vs _ ih =>
    cases vs with
    | nil => simp [tokens, Token.isApart]
    | cons v vs =>
      simp only [tokens, List.cons_append, List.mem_cons, List.mem_append, List.mem_nil_iff,
        or_false]
      rintro t (rfl | (ht | ht) | rfl)
      · rfl
      · exact ih v List.mem_cons_self t ht
      · obtain rfl | ⟨w, hw, h⟩ := mem_restTokens ht
        · rfl
        · exact ih w (List.mem_cons_of_mem _ hw) t h
      · rfl
  | @object n fs _ _ ih =>
    cases fs with
    | nil => simp [tokens, Token.isApart]
    | cons f fs =>
      simp only [tokens, List.cons_append, List.mem_cons, List.mem_append, List.mem_nil_iff,
        or_false]
      rintro t (rfl | rfl | rfl | (ht | ht) | rfl)
      · rfl
      · rfl
      · rfl
      · exact ih f List.mem_cons_self t ht
      · obtain rfl | rfl | ⟨k, rfl⟩ | ⟨g, hg, h⟩ := mem_restFieldTokens ht
        · rfl
        · rfl
        · rfl
        · exact ih g (List.mem_cons_of_mem _ hg) t h
      · rfl

theorem foldlM_firstItem (v : Value) (stack : List Frame) (ts : List Token) :
    (tokens v ++ ts).foldlM State.step (.firstItem stack) =
      (tokens v ++ ts).foldlM State.step (.value (.items [] :: stack)) := by
  rcases v with _ | _ | _ | _ | _ | (_ | ⟨w, ws⟩) | (_ | ⟨⟨k, w⟩, fs⟩) <;> rfl

section Parsing

variable {P : Value → Prop}
  (hP : ∀ v, P v → ∀ stack ts, (tokens v ++ ts).foldlM State.step (.value stack) =
    ts.foldlM State.step (.after v stack))

include hP

theorem foldlM_restTokens {vs : List Value} (hvs : ∀ v ∈ vs, P v) (v : Value)
    (before : List Value) (stack : List Frame) (ts : List Token) :
    (restTokens vs ++ .closeList :: ts).foldlM State.step (.after v (.items before :: stack)) =
      ts.foldlM State.step (.after (.list (before.reverse ++ v :: vs)) stack) := by
  induction vs generalizing v before with
  | nil =>
    change ts.foldlM State.step (.after (.list (v :: before).reverse) stack) = _
    rw [List.reverse_cons]
  | cons w ws ih =>
    rw [restTokens, List.cons_append, List.cons_append, List.append_assoc]
    change (tokens w ++ _).foldlM State.step (.value (.items (v :: before) :: stack)) = _
    rw [hP w (hvs w List.mem_cons_self), ih fun u hu => hvs u (List.mem_cons_of_mem _ hu),
      List.reverse_cons, List.append_assoc]
    rfl

theorem foldlM_restFieldTokens {fs : Value.Fields} (hfs : ∀ f ∈ fs, P f.2) (k : String)
    (v : Value) (before : Value.Fields)
    (hkeys : ((before ++ (k, v) :: fs).map Prod.fst).Nodup) (stack : List Frame)
    (ts : List Token) :
    (restFieldTokens fs ++ .closeObject :: ts).foldlM State.step
        (.after v (.fields before k :: stack)) =
      ts.foldlM State.step (.after (.object (before ++ (k, v) :: fs)) stack) := by
  -- the name is new, so the field is put last
  have hput : before.put k v = before ++ [(k, v)] := by
    refine Value.Fields.put_new (fun hk => ?_) v
    rw [List.map_append, List.nodup_append] at hkeys
    exact hkeys.2.2 k hk k (by simp) rfl
  induction fs generalizing k v before with
  | nil =>
    change ts.foldlM State.step (.after (.object (before.put k v)) stack) = _
    rw [hput]
  | cons f fs ih =>
    have happend : before ++ (k, v) :: f :: fs = (before ++ [(k, v)]) ++ (f.1, f.2) :: fs := by
      simp
    rw [happend] at hkeys ⊢
    rw [restFieldTokens, List.cons_append, List.cons_append, List.cons_append, List.cons_append,
      List.append_assoc]
    change (tokens f.2 ++ _).foldlM State.step
      (.value (.fields (before.put k v) f.1 :: stack)) = _
    rw [hP f.2 (hfs f List.mem_cons_self), hput]
    refine ih (fun u hu => hfs u (List.mem_cons_of_mem _ hu)) f.1 f.2 _ hkeys ?_
    refine Value.Fields.put_new (fun hk => ?_) f.2
    rw [List.map_append, List.nodup_append] at hkeys
    exact hkeys.2.2 f.1 hk f.1 (by simp) rfl

end Parsing

theorem foldlM_tokens {n : Nat} {v : Value} (hv : v.Fits n) (stack : List Frame)
    (ts : List Token) :
    (tokens v ++ ts).foldlM State.step (.value stack) = ts.foldlM State.step (.after v stack) := by
  induction hv generalizing stack ts with
  | text | empty => rfl
  | @list n vs _ ih =>
    cases vs with
    | nil => rfl
    | cons v vs =>
      rw [tokens, List.append_assoc, List.append_assoc, List.cons_append]
      change (tokens v ++ _).foldlM State.step (.firstItem stack) = _
      rw [foldlM_firstItem, ih v List.mem_cons_self]
      exact foldlM_restTokens (P := (· ∈ v :: vs)) (fun w hw => ih w hw)
        (fun w hw => List.mem_cons_of_mem _ hw) v [] stack ts
  | @object n fs hkeys _ ih =>
    cases fs with
    | nil => rfl
    | cons f fs =>
      obtain ⟨k, v⟩ := f
      rw [tokens, List.append_assoc, List.append_assoc, List.cons_append, List.cons_append,
        List.cons_append]
      change (tokens v ++ _).foldlM State.step (.value (.fields [] k :: stack)) = _
      rw [ih (k, v) List.mem_cons_self]
      exact foldlM_restFieldTokens (P := fun w => ∃ f ∈ (k, v) :: fs, f.2 = w)
        (by rintro _ ⟨f, hf, rfl⟩; exact ih f hf)
        (fun f hf => ⟨f, List.mem_cons_of_mem _ hf, rfl⟩) k v [] hkeys stack ts

/-! Nesting. -/

theorem nesting_openList (k : Nat) (v : Value) (ts : List Token) :
    nesting k (.openList :: (tokens v ++ ts)) = max k (nesting (k + 1) (tokens v ++ ts)) := by
  rcases v with _ | _ | _ | _ | _ | (_ | ⟨w, ws⟩) | (_ | ⟨⟨k, w⟩, fs⟩) <;> rfl

theorem nesting_closed {k m : Nat} (hk : k + 1 ≤ m) {ts : List Token} (hts : nesting k ts ≤ m) :
    nesting (k + 1) (.closeList :: ts) ≤ m ∧ nesting (k + 1) (.closeObject :: ts) ≤ m :=
  ⟨Nat.max_le.2 ⟨hk, hts⟩, Nat.max_le.2 ⟨hk, hts⟩⟩

theorem nesting_tokens {n : Nat} {v : Value} (hv : v.Fits n) {k m : Nat} (hk : k + n ≤ m)
    {ts : List Token} (hts : nesting k ts ≤ m) : nesting k (tokens v ++ ts) ≤ m := by
  induction hv generalizing k ts with
  | text | empty => exact hts
  | @list n vs _ ih =>
    -- the items behind the first one stand one level deeper, whatever follows the list
    have hrest (ws : List Value) (hw : ∀ w ∈ ws, w ∈ vs) :
        nesting (k + 1) (restTokens ws ++ .closeList :: ts) ≤ m := by
      induction ws with
      | nil => exact (nesting_closed (by omega) hts).1
      | cons w ws ihw =>
        rw [restTokens, List.cons_append, List.cons_append, List.append_assoc]
        exact ih w (hw w List.mem_cons_self) (by omega)
          (ihw fun u hu => hw u (List.mem_cons_of_mem _ hu))
    cases vs with
    | nil => exact hts
    | cons v vs =>
      rw [tokens, List.append_assoc, List.append_assoc, List.cons_append, List.cons_append,
        List.nil_append, nesting_openList]
      refine Nat.max_le.2 ⟨by omega, ih v List.mem_cons_self (by omega) ?_⟩
      exact hrest vs fun w hw => List.mem_cons_of_mem _ hw
  | @object n fs _ _ ih =>
    have hrest (gs : Value.Fields) (hg : ∀ g ∈ gs, g ∈ fs) :
        nesting (k + 1) (restFieldTokens gs ++ .closeObject :: ts) ≤ m := by
      induction gs with
      | nil => exact (nesting_closed (by omega) hts).2
      | cons g gs ihg =>
        rw [restFieldTokens, List.cons_append, List.cons_append, List.cons_append,
          List.cons_append, List.append_assoc]
        exact ih g (hg g List.mem_cons_self) (by omega)
          (ihg fun u hu => hg u (List.mem_cons_of_mem _ hu))
    cases fs with
    | nil => exact hts
    | cons f fs =>
      rw [tokens, List.append_assoc, List.append_assoc, List.cons_append, List.cons_append,
        List.cons_append]
      refine Nat.max_le.2 ⟨by omega, ih f List.mem_cons_self (by omega) ?_⟩
      exact hrest fs fun g hg => List.mem_cons_of_mem _ hg

theorem readWithin?_print {size depth : Nat} {v : Value} (hv : v.Fits depth) :
    readWithin? size depth (print v) = some v := by
  have hparse := foldlM_tokens hv [] []
  have hnesting : nesting 0 (tokens v ++ []) ≤ depth :=
    nesting_tokens hv (Nat.le_of_eq (Nat.zero_add depth)) (Nat.zero_le depth)
  rw [List.append_nil] at hparse hnesting
  rw [readWithin?, print, String.toList_ofList, tokensBy?_chars _ (isApart_of_fits hv)]
  change (if _ then _ else _) = _
  rw [if_pos hnesting, ofTokens?, hparse]
  rfl

end Json

end AccessControl
