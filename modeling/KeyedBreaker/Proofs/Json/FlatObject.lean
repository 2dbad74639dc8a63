import KeyedBreaker.Json.Reading
import KeyedBreaker.Json.Written
import KeyedBreaker.Proofs.Calendar.Digits
import Mathlib.Data.Bool.AllAny
import Mathlib.Data.List.TakeWhile

namespace KeyedBreaker.Json

def Plain (c : Char) : Prop := c ≠ '\x22' ∧ c ≠ '\\' ∧ ' ' ≤ c ∧ c ≤ '~'

instance (c : Char) : Decidable (Plain c) := inferInstanceAs (Decidable (_ ∧ _))

/-- A value without an inside, and without a character that has to be escaped. -/
inductive Scalar : Json → Prop
  | null : Scalar .null
  | int (n : Int) : Scalar (.int n)
  | text {s : String} (h : ∀ c ∈ s.toList, Plain c) : Scalar (.text s)

theorem charWritten_of_plain {c : Char} (hc : Plain c) : charWritten c = [c] := by
  obtain ⟨hquote, hslash, hlow, hhigh⟩ := hc
  have hn (d : Char) (hd : ¬ ' ' ≤ d) : c ≠ d := fun h => hd (h ▸ hlow)
  simp [charWritten, hquote, hslash, hlow, hhigh, hn '\n' (by decide), hn '\r' (by decide),
    hn '\t' (by decide)]

theorem textWritten_of_plain {s : String} (hs : ∀ c ∈ s.toList, Plain c) :
    textWritten s = '\x22' :: (s.toList ++ ['\x22']) := by
  have h : s.toList.flatMap charWritten = s.toList.flatMap ([·]) :=
    List.flatMap_congr fun c hc => charWritten_of_plain (hs c hc)
  rw [textWritten, h, List.flatMap_singleton']

theorem foldlM_cons_of_eq_some {σ α : Type} {f : σ → α → Option σ} {s s' : σ} {a : α}
    (h : f s a = some s') (as : List α) : (a :: as).foldlM f s = as.foldlM f s' := by
  rw [List.foldlM_cons, h]
  rfl

section Scanning

variable (ts : List Token)

theorem scan_inText (cs : List Char) (hcs : ∀ c ∈ cs, Plain c) (acc rest : List Char) :
    (cs ++ rest).foldlM scanChar ⟨.inText acc none, ts⟩ =
      rest.foldlM scanChar ⟨.inText (cs.reverse ++ acc) none, ts⟩ := by
  induction cs generalizing acc with
  | nil => rfl
  | cons c cs ih =>
    obtain ⟨hquote, hslash, hlow, _⟩ := hcs c List.mem_cons_self
    have hlow' : ¬ c < ' ' := Char.not_lt.mpr hlow
    have hstep : scanChar ⟨.inText acc none, ts⟩ c = some ⟨.inText (c :: acc) none, ts⟩ := by
      simp [scanChar, hquote, hslash, hlow']
    rw [List.cons_append, foldlM_cons_of_eq_some hstep,
      ih (fun d hd => hcs d (List.mem_cons_of_mem _ hd)), List.reverse_cons, List.append_assoc,
      List.singleton_append]

theorem scan_text {s : String} (hs : ∀ c ∈ s.toList, Plain c) (rest : List Char) :
    (textWritten s ++ rest).foldlM scanChar ⟨.between, ts⟩ =
      rest.foldlM scanChar ⟨.between, .value (.text s) :: ts⟩ := by
  have hopen : scanChar ⟨.between, ts⟩ '\x22' = some ⟨.inText [] none, ts⟩ := rfl
  have hclose : scanChar ⟨.inText (s.toList.reverse ++ []) none, ts⟩ '\x22' =
      some ⟨.between, .value (.text s) :: ts⟩ := by
    simp [scanChar]
  rw [textWritten_of_plain hs, List.cons_append, foldlM_cons_of_eq_some hopen, List.append_assoc,
    scan_inText ts _ hs, List.singleton_append, foldlM_cons_of_eq_some hclose]

def InAtom (c : Char) : Prop := (mark? c).isNone = true ∧ isSpace c = false ∧ c ≠ '\x22'

instance (c : Char) : Decidable (InAtom c) := inferInstanceAs (Decidable (_ ∧ _))

theorem scan_inAtom (cs : List Char) (hcs : ∀ c ∈ cs, InAtom c) (acc rest : List Char) :
    (cs ++ rest).foldlM scanChar ⟨.inAtom acc, ts⟩ =
      rest.foldlM scanChar ⟨.inAtom (cs.reverse ++ acc), ts⟩ := by
  induction cs generalizing acc with
  | nil => rfl
  | cons c cs ih =>
    obtain ⟨hmark, hspace, hquote⟩ := hcs c List.mem_cons_self
    rw [Option.isNone_iff_eq_none] at hmark
    have hstep : scanChar ⟨.inAtom acc, ts⟩ c = some ⟨.inAtom (c :: acc), ts⟩ := by
      simp [scanChar, hmark, hspace, hquote]
    rw [List.cons_append, foldlM_cons_of_eq_some hstep,
      ih (fun d hd => hcs d (List.mem_cons_of_mem _ hd)), List.reverse_cons, List.append_assoc,
      List.singleton_append]

/-- An atom ends before a mark. -/
theorem scan_atom {c d : Char} {cs : List Char} (hcs : ∀ x ∈ c :: cs, InAtom x) {v : Json}
    (hv : atom? (c :: cs) = some v) {t : Token} (ht : mark? d = some t) (rest : List Char) :
    (c :: cs ++ d :: rest).foldlM scanChar ⟨.between, ts⟩ =
      rest.foldlM scanChar ⟨.between, t :: .value v :: ts⟩ := by
  obtain ⟨hmark, hspace, hquote⟩ := hcs c List.mem_cons_self
  rw [Option.isNone_iff_eq_none] at hmark
  have hopen : scanChar ⟨.between, ts⟩ c = some ⟨.inAtom [c], ts⟩ := by
    simp [scanChar, scanBetween, hmark, hspace, hquote]
  have hend : scanChar ⟨.inAtom (cs.reverse ++ [c]), ts⟩ d =
      some ⟨.between, t :: .value v :: ts⟩ := by
    simp [scanChar, scanBetween, endAtom, ht, hv]
  rw [List.cons_append, foldlM_cons_of_eq_some hopen,
    scan_inAtom ts cs (fun x hx => hcs x (List.mem_cons_of_mem _ hx)), foldlM_cons_of_eq_some hend]

end Scanning

theorem inAtom_of_isDigit {c : Char} (hc : c.isDigit = true) : InAtom c := by
  have hn (d : Char) (hd : d.isDigit = false) : c ≠ d := fun h => by simp [h, hd] at hc
  simp [InAtom, mark?, isSpace, hn '[' rfl, hn ']' rfl, hn '\x7b' rfl, hn '\x7d' rfl, hn ':' rfl,
    hn ',' rfl, hn ' ' rfl, hn '\t' rfl, hn '\n' rfl, hn '\r' rfl, hn '\x22' rfl]

theorem inAtom_of_mem_intWritten (n : Int) (c : Char) (hc : c ∈ intWritten n) : InAtom c := by
  have hdigit (hc : c ∈ Nat.toDigits 10 n.natAbs) : InAtom c :=
    inAtom_of_isDigit (Nat.isDigit_of_mem_toDigits (by decide) (by decide) hc)
  unfold intWritten at hc
  split at hc
  · rcases List.mem_cons.mp hc with rfl | hc
    · exact ⟨rfl, rfl, by decide⟩
    · exact hdigit hc
  · exact hdigit hc

theorem number?_intWritten (n : Int) : number? (intWritten n) = some (.int n) := by
  have hdigits : ∀ c ∈ Nat.toDigits 10 n.natAbs, c.isDigit = true :=
    fun c hc => Nat.isDigit_of_mem_toDigits (by decide) (by decide) hc
  have hne : Nat.toDigits 10 n.natAbs ≠ [] := Nat.toDigits_ne_nil
  have hzero : (Nat.toDigits 10 n.natAbs).head? = some '0' → Nat.toDigits 10 n.natAbs = ['0'] := by
    intro h
    by_cases h0 : n.natAbs = 0
    · rw [h0]
      rfl
    · exact absurd h (head?_toDigits h0)
  have htake : (Nat.toDigits 10 n.natAbs).takeWhile Char.isDigit = Nat.toDigits 10 n.natAbs :=
    List.takeWhile_eq_self_iff.mpr hdigits
  have hdrop : (Nat.toDigits 10 n.natAbs).dropWhile Char.isDigit = [] :=
    List.dropWhile_eq_nil_iff.mpr hdigits
  have hlead : ¬ (Nat.toDigits 10 n.natAbs = [] ∨
      ((Nat.toDigits 10 n.natAbs).head? = some '0' ∧ Nat.toDigits 10 n.natAbs ≠ ['0'])) := by
    rintro (h | ⟨h, h'⟩)
    · exact hne h
    · exact h' (hzero h)
  by_cases hneg : n < 0
  · simp only [number?, intWritten, if_pos hneg, List.head?_cons, List.tail_cons, if_true, htake,
      hdrop, if_neg hlead, ofDigits_toDigits]
    congr 2
    omega
  · have hsign : (Nat.toDigits 10 n.natAbs).head? ≠ some '-' := by
      intro h
      have := hdigits '-' (List.mem_of_mem_head? h)
      simp at this
    simp only [number?, intWritten, if_neg hneg, if_neg hsign, htake, hdrop, if_neg hlead, if_true,
      ofDigits_toDigits]
    congr 2
    omega

theorem isDigit_of_mem_intWritten {n : Int} {c : Char} (hc : c ∈ intWritten n) (hsign : c ≠ '-') :
    c.isDigit = true := by
  unfold intWritten at hc
  split at hc
  · exact Nat.isDigit_of_mem_toDigits (by decide) (by decide)
      ((List.mem_cons.mp hc).resolve_left hsign)
  · exact Nat.isDigit_of_mem_toDigits (by decide) (by decide) hc

theorem words_lookup_intWritten (n : Int) : words.lookup (intWritten n) = none := by
  have hne (d : Char) (hd : d.isDigit = false) (hsign : d ≠ '-') (w : List Char) (hw : d ∈ w) :
      (intWritten n == w) = false := by
    refine beq_false_of_ne fun h => ?_
    have hdigit := isDigit_of_mem_intWritten (h ▸ hw) hsign
    rw [hd] at hdigit
    exact Bool.false_ne_true hdigit
  simp only [words, List.lookup_cons, List.lookup_nil, hne 'n' rfl (by decide) "null".toList (by decide),
    hne 't' rfl (by decide) "true".toList (by decide),
    hne 'f' rfl (by decide) "false".toList (by decide),
    hne 'N' rfl (by decide) "NaN".toList (by decide),
    hne 'I' rfl (by decide) "Infinity".toList (by decide),
    hne 'I' rfl (by decide) "-Infinity".toList (by decide)]

theorem atom?_intWritten (n : Int) : atom? (intWritten n) = some (.int n) := by
  rw [atom?, words_lookup_intWritten, Option.none_or, number?_intWritten]

theorem intWritten_ne_nil (n : Int) : intWritten n ≠ [] := by
  unfold intWritten
  split
  · exact List.cons_ne_nil _ _
  · exact Nat.toDigits_ne_nil

theorem scan_scalar (ts : List Token) {v : Json} (hv : Scalar v) {d : Char} {t : Token}
    (ht : mark? d = some t) (rest : List Char) :
    (v.written ++ d :: rest).foldlM scanChar ⟨.between, ts⟩ =
      rest.foldlM scanChar ⟨.between, t :: .value v :: ts⟩ := by
  cases hv with
  | null =>
    have hnull : ∀ c ∈ "null".toList, InAtom c :=
      List.all_iff_forall_prop.1 (by decide +kernel)
    exact scan_atom ts hnull rfl ht rest
  | int n =>
    obtain ⟨c, cs, hcs⟩ := List.exists_cons_of_ne_nil (intWritten_ne_nil n)
    rw [written, hcs]
    exact scan_atom ts (fun c hc => inAtom_of_mem_intWritten n c (hcs ▸ hc))
      (hcs ▸ atom?_intWritten n) ht rest
  | @text s hs =>
    have hmark : scanChar ⟨.between, .value (.text s) :: ts⟩ d =
        some ⟨.between, t :: .value (.text s) :: ts⟩ := by
      simp [scanChar, scanBetween, ht]
    rw [written, scan_text ts hs, foldlM_cons_of_eq_some hmark]

def memberTokens : List (String × Json) → List Token
  | [] => []
  | [(name, v)] => [.value (.text name), .colon, .value v]
  | (name, v) :: members => .value (.text name) :: .colon :: .value v :: .comma :: memberTokens members

def FlatMembers (members : List (String × Json)) : Prop :=
  ∀ m ∈ members, (∀ c ∈ m.1.toList, Plain c) ∧ Scalar m.2

theorem scan_members (members : List (String × Json)) (hm : FlatMembers members) (hne : members ≠ [])
    (ts : List Token) {d : Char} {t : Token} (ht : mark? d = some t) (rest : List Char) :
    (membersWritten members ++ d :: rest).foldlM scanChar ⟨.between, ts⟩ =
      rest.foldlM scanChar ⟨.between, t :: ((memberTokens members).reverse ++ ts)⟩ := by
  have hcolon (ts : List Token) : scanChar ⟨.between, ts⟩ ':' = some ⟨.between, .colon :: ts⟩ := rfl
  induction members generalizing ts with
  | nil => exact absurd rfl hne
  | cons m members ih =>
    obtain ⟨name, v⟩ := m
    obtain ⟨hname, hv⟩ := hm (name, v) List.mem_cons_self
    cases members with
    | nil =>
      rw [membersWritten, List.append_assoc, scan_text ts hname, List.cons_append,
        foldlM_cons_of_eq_some (hcolon _), scan_scalar _ hv ht]
      rfl
    | cons m' members =>
      have hcomma : mark? ',' = some .comma := rfl
      rw [membersWritten, List.append_assoc, scan_text ts hname, List.cons_append,
        foldlM_cons_of_eq_some (hcolon _), List.append_assoc, List.cons_append,
        scan_scalar _ hv hcomma,
        ih (fun x hx => hm x (List.mem_cons_of_mem _ hx)) (List.cons_ne_nil _ _)]
      · simp [memberTokens]
      · exact List.cons_ne_nil _ _

theorem tokens?_object {members : List (String × Json)} (hm : FlatMembers members)
    (hne : members ≠ []) : tokens? (written (.object members)) =
      some (.openObject :: (memberTokens members ++ [.closeObject])) := by
  have hopen : scanChar ⟨.between, []⟩ '{' = some ⟨.between, [.openObject]⟩ := rfl
  have hclose : mark? '}' = some .closeObject := rfl
  have hscan : (written (.object members)).foldlM scanChar ⟨.between, []⟩ =
      some ⟨.between, .closeObject :: ((memberTokens members).reverse ++ [.openObject])⟩ := by
    rw [written, foldlM_cons_of_eq_some hopen, scan_members members hm hne _ hclose]
    rfl
  rw [tokens?, hscan]
  simp

/-- Reading goes through the members of an open object one after another. -/
theorem take_members {limit : Nat} (hl : 1 ≤ limit) (members : List (String × Json))
    (hne : members ≠ []) (before : List (String × Json)) (awaits : Awaits) (name : String)
    (ha : awaits = .nameOrEnd ∨ awaits = .name) (rest : List Token) :
    (memberTokens members ++ rest).foldlM (takeToken limit)
        (.unfinished awaits [.object before name]) =
      rest.foldlM (takeToken limit)
        (.unfinished .commaOrEnd [.object (members.reverse ++ before) ""]) := by
  induction members generalizing before awaits name with
  | nil => exact absurd rfl hne
  | cons m members ih =>
    obtain ⟨n, v⟩ := m
    have hname : takeToken limit (.unfinished awaits [.object before name]) (.value (.text n)) =
        some (.unfinished .colon [.object before n]) := by
      rcases ha with rfl | rfl <;> simp [takeToken, nameMember, hl]
    have hcolon : takeToken limit (.unfinished .colon [.object before n]) .colon =
        some (.unfinished .value [.object before n]) := rfl
    have hvalue : takeToken limit (.unfinished .value [.object before n]) (.value v) =
        some (.unfinished .commaOrEnd [.object ((n, v) :: before) ""]) := rfl
    cases members with
    | nil =>
      rw [memberTokens, List.cons_append, foldlM_cons_of_eq_some hname, List.cons_append,
        foldlM_cons_of_eq_some hcolon, List.cons_append, foldlM_cons_of_eq_some hvalue]
      rfl
    | cons m' members =>
      have hcomma : takeToken limit (.unfinished .commaOrEnd [.object ((n, v) :: before) ""]) .comma =
          some (.unfinished .name [.object ((n, v) :: before) ""]) := rfl
      rw [memberTokens, List.cons_append, foldlM_cons_of_eq_some hname, List.cons_append,
        foldlM_cons_of_eq_some hcolon, List.cons_append, foldlM_cons_of_eq_some hvalue,
        List.cons_append, foldlM_cons_of_eq_some hcomma,
        ih (List.cons_ne_nil _ _) _ _ _ (.inr rfl)]
      · simp
      · exact List.cons_ne_nil _ _

theorem read?_object {limit : Nat} (hl : 1 ≤ limit) {members : List (String × Json)}
    (hm : FlatMembers members) (hne : members ≠ []) :
    read? limit (String.ofList (written (.object members))) = some (.object members) := by
  have hopen : takeToken limit (.unfinished .value []) .openObject =
      some (.unfinished .nameOrEnd [.object [] ""]) := rfl
  have hclose : takeToken limit (.unfinished .commaOrEnd [.object (members.reverse ++ []) ""])
      .closeObject = some (.finished (.object members)) := by
    simp [takeToken, finish, supply]
  have htake : (Token.openObject :: (memberTokens members ++ [.closeObject])).foldlM
      (takeToken limit) (.unfinished .value []) = some (.finished (.object members)) := by
    rw [foldlM_cons_of_eq_some hopen, take_members hl members hne _ _ _ (.inl rfl),
      foldlM_cons_of_eq_some hclose]
    rfl
  rw [read?, String.toList_ofList, tokens?_object hm hne]
  simp [htake]

end KeyedBreaker.Json
