import Exchange.Pipeline

/-!
# The grammar of payloads

`parse_key_values` as it walks over the payload with indices (`keyValuesLoop`), and what it reads: a key is given
what the first token with that key holds (`FirstHeld`). Fields that are joined with semicolons (`Joined`) are read
back, in whatever order they stand, so an order does not depend on the order of its fields.
-/

namespace Exchange.Payload

/-- `std::string_view::find` of a character, from `start` on. -/
def find (text : List Char) (ch : Char) (start : ℕ) : Option ℕ := ((text.drop start).idxOf? ch).map (start + ·)

def substr (text : List Char) (start count : ℕ) : List Char := (text.drop start).take count

variable {text token key value rest : List Char} {ch : Char} {start : ℕ}

theorem idxOf?_append_cons (h : ch ∉ text) : (text ++ ch :: rest).idxOf? ch = some text.length := by
  induction text with
  | nil => simp [List.idxOf?_cons]
  | cons c text ih =>
    obtain ⟨hne, hmem⟩ := List.ne_and_not_mem_of_not_mem_cons h
    rw [List.cons_append, List.idxOf?_cons, if_neg (by simpa using hne.symm), ih hmem]
    rfl

theorem find_eq_none (h : ch ∉ text.drop start) : find text ch start = none := by
  rw [find, List.idxOf?_eq_none_iff.2 h]
  rfl

theorem find_append_cons (h : ch ∉ token) (hdrop : text.drop start = token ++ ch :: rest) :
    find text ch start = some (start + token.length) := by
  rw [find, hdrop, idxOf?_append_cons h]
  rfl

theorem find_cases (text : List Char) (ch : Char) (start : ℕ) :
    ch ∉ text.drop start ∧ find text ch start = none ∨
      ∃ token rest, ch ∉ token ∧ text.drop start = token ++ ch :: rest ∧
        find text ch start = some (start + token.length) := by
  by_cases hmem : ch ∈ text.drop start
  · obtain ⟨token, rest, hdrop, htoken⟩ := List.eq_append_cons_of_mem hmem
    exact .inr ⟨token, rest, htoken, hdrop, find_append_cons htoken hdrop⟩
  · exact .inl ⟨hmem, find_eq_none hmem⟩

theorem le_of_find {stop : ℕ} (h : find text ch start = some stop) : start ≤ stop := by
  obtain ⟨i, -, rfl⟩ := Option.map_eq_some_iff.1 h
  exact Nat.le_add_right start i

def emplacePair (token : List Char) (values : AList fun _ : String => String) : AList fun _ : String => String :=
  match find token '=' 0 with
  | none => values
  | some delimiter =>
    let key := String.ofList (substr token 0 delimiter)
    let value := String.ofList (token.drop (delimiter + 1))
    if key ∈ values then values else values.insert key value

/-- The loop of `parse_key_values`. -/
def keyValuesLoop (payload : List Char) (start : ℕ) (values : AList fun _ : String => String) :
    AList fun _ : String => String :=
  if start < payload.length then
    match _hstop : find payload ';' start with
    | none => emplacePair (substr payload start (payload.length - start)) values
    | some stop => keyValuesLoop payload (stop + 1) (emplacePair (substr payload start (stop - start)) values)
  else values
termination_by payload.length - start
decreasing_by
  have := le_of_find _hstop
  omega

/-- The token has the key before its first `=` and the value behind it. -/
structure Holds (token : List Char) (key value : String) : Prop where
  token_eq : token = key.toList ++ '=' :: value.toList
  key_free : '=' ∉ key.toList

theorem takeWhile_append_cons (h : '=' ∉ key) (value : List Char) :
    (key ++ '=' :: value).takeWhile (· ≠ '=') = key ∧ (key ++ '=' :: value).dropWhile (· ≠ '=') = '=' :: value := by
  have hkey : ∀ c ∈ key, (decide (c ≠ '=')) = true := by
    intro c hc
    exact decide_eq_true fun heq => h (heq ▸ hc)
  rw [List.takeWhile_append_of_pos hkey, List.dropWhile_append_of_pos hkey]
  simp

theorem emplaceToken_of_notMem (h : '=' ∉ token) (values : AList fun _ : String => String) :
    emplaceToken token values = values := if_neg h

theorem emplaceToken_append (h : '=' ∉ key) (values : AList fun _ : String => String) :
    emplaceToken (key ++ '=' :: value) values =
      if String.ofList key ∈ values then values else values.insert (String.ofList key) (String.ofList value) := by
  obtain ⟨htake, hdrop⟩ := takeWhile_append_cons h value
  rw [emplaceToken, if_pos (by simp), htake, hdrop]
  rfl

theorem emplacePair_eq (token : List Char) (values : AList fun _ : String => String) :
    emplacePair token values = emplaceToken token values := by
  rw [emplacePair]
  rcases find_cases token '=' 0 with ⟨hnone, hfind⟩ | ⟨key, value, hkey, htoken, hfind⟩
  · rw [hfind, emplaceToken_of_notMem (by simpa using hnone)]
  · rw [List.drop_zero] at htoken
    subst htoken
    rw [hfind, emplaceToken_append hkey]
    simp [substr]

theorem holds_append_iff (h : '=' ∉ token) {key value : String} :
    Holds (token ++ '=' :: rest) key value ↔ String.ofList token = key ∧ String.ofList rest = value := by
  refine ⟨fun hholds => ?_, ?_⟩
  · obtain ⟨hkey, hvalue⟩ := takeWhile_append_cons h rest
    obtain ⟨hkey', hvalue'⟩ := takeWhile_append_cons hholds.key_free value.toList
    rw [hholds.token_eq, hkey'] at hkey
    rw [hholds.token_eq, hvalue'] at hvalue
    rw [← hkey, ← List.tail_eq_of_cons_eq hvalue, String.ofList_toList, String.ofList_toList]
    exact ⟨rfl, rfl⟩
  · rintro ⟨rfl, rfl⟩
    exact ⟨by rw [String.toList_ofList, String.toList_ofList], by rwa [String.toList_ofList]⟩

theorem lookup_emplaceToken {values : AList fun _ : String => String} {key value : String} :
    (emplaceToken token values).lookup key = some value ↔
      values.lookup key = some value ∨ values.lookup key = none ∧ Holds token key value := by
  by_cases hmem : '=' ∈ token
  · obtain ⟨before, after, rfl, hbefore⟩ := List.eq_append_cons_of_mem hmem
    rw [emplaceToken_append hbefore, holds_append_iff hbefore]
    split_ifs with hin
    · obtain ⟨old, hold⟩ := Assoc.exists_lookup hin
      refine ⟨.inl, fun h => h.elim id ?_⟩
      rintro ⟨hnone, rfl, -⟩
      rw [hnone] at hold
      cases hold
    · rw [Assoc.lookup_insert]
      split_ifs with hkey
      · subst hkey
        rw [AList.lookup_eq_none.2 hin]
        simp
      · simp [Ne.symm hkey]
  · rw [emplaceToken_of_notMem hmem]
    refine ⟨.inl, fun h => h.elim id ?_⟩
    rintro ⟨-, hholds⟩
    exact absurd (by rw [hholds.token_eq]; simp) hmem

/-! ### All tokens -/

/-- The first token with the key holds the value. -/
inductive FirstHeld (key value : String) : List (List Char) → Prop
  | here {token : List Char} {tokens : List (List Char)} (h : Holds token key value) :
      FirstHeld key value (token :: tokens)
  | later {token : List Char} {tokens : List (List Char)} (hfree : ∀ v, ¬ Holds token key v)
      (h : FirstHeld key value tokens) : FirstHeld key value (token :: tokens)

theorem firstHeld_cons_iff {key value : String} {tokens : List (List Char)} :
    FirstHeld key value (token :: tokens) ↔
      Holds token key value ∨ (∀ v, ¬ Holds token key v) ∧ FirstHeld key value tokens := by
  refine ⟨fun h => ?_, fun h => h.elim .here fun h => .later h.1 h.2⟩
  cases h with
  | here h => exact .inl h
  | later hfree h => exact .inr ⟨hfree, h⟩

theorem lookup_emplaceToken_eq_none {values : AList fun _ : String => String} {key : String} :
    (emplaceToken token values).lookup key = none ↔ values.lookup key = none ∧ ∀ v, ¬ Holds token key v := by
  simp only [Option.eq_none_iff_forall_ne_some, ne_eq, lookup_emplaceToken, not_or, not_and]
  refine ⟨fun h => ⟨fun v => (h v).1, fun v => (h v).2 fun w => (h w).1⟩, fun h v => ⟨h.1 v, fun _ => h.2 v⟩⟩

theorem lookup_foldl_emplaceToken {key value : String} (tokens : List (List Char)) :
    ∀ values : AList fun _ : String => String,
      (tokens.foldl (fun values token => emplaceToken token values) values).lookup key = some value ↔
        values.lookup key = some value ∨ values.lookup key = none ∧ FirstHeld key value tokens := by
  induction tokens with
  | nil =>
    intro values
    refine ⟨.inl, fun h => h.elim id fun ⟨_, h⟩ => ?_⟩
    cases h
  | cons token tokens ih =>
    intro values
    rw [List.foldl_cons, ih, lookup_emplaceToken, lookup_emplaceToken_eq_none, firstHeld_cons_iff, and_assoc, or_assoc,
      and_or_left]

theorem exists_firstHeld_iff {key : String} {tokens : List (List Char)} :
    (∃ value, FirstHeld key value tokens) ↔ ∃ token ∈ tokens, ∃ value, Holds token key value := by
  induction tokens with
  | nil => exact iff_of_false (fun ⟨_, h⟩ => nomatch h) (by simp)
  | cons token tokens ih =>
    simp only [firstHeld_cons_iff, List.exists_mem_cons_iff, ← ih]
    by_cases hholds : ∃ value, Holds token key value
    · obtain ⟨value, h⟩ := hholds
      exact iff_of_true ⟨value, .inl h⟩ (.inl ⟨value, h⟩)
    · have hfree : ∀ v, ¬ Holds token key v := not_exists.1 hholds
      simp only [hfree, not_false_eq_true, implies_true, true_and, false_or, exists_false]

theorem parseLoop_eq_foldl (text : List Char) : ∀ (token : List Char) (values : AList fun _ : String => String),
    parseLoop text token values =
      (List.splitOnPPrepend (· == ';') text token).foldl (fun values token => emplaceToken token values) values := by
  induction text with
  | nil => exact fun token values => rfl
  | cons ch text ih =>
    intro token values
    rw [parseLoop, List.splitOnPPrepend_cons_eq_if]
    by_cases hch : ch = ';'
    · rw [if_pos hch, if_pos (by simpa using hch), List.foldl_cons, ih]
      rfl
    · rw [if_neg hch, if_neg (by simpa using hch), ih]

theorem parseKeyValues_eq_foldl (payload : String) : parseKeyValues payload =
    (payload.toList.splitOn ';').foldl (fun values token => emplaceToken token values) ∅ := by
  rw [parseKeyValues, parseLoop_eq_foldl]
  rfl

theorem keyValuesLoop_eq_foldl (payload : List Char) (start : ℕ) (values : AList fun _ : String => String) :
    keyValuesLoop payload start values =
      ((payload.drop start).splitOn ';').foldl (fun values token => emplaceToken token values) values := by
  induction start, values using keyValuesLoop.induct payload with
  | case1 start values hlt hfind =>
    have hmem : ';' ∉ payload.drop start := by
      rcases find_cases payload ';' start with ⟨hmem, -⟩ | ⟨token, rest, -, -, hsome⟩
      · exact hmem
      · rw [hsome] at hfind
        cases hfind
    have hsub : substr payload start (payload.length - start) = payload.drop start :=
      List.take_of_length_le (by rw [List.length_drop])
    rw [keyValuesLoop, if_pos hlt, List.splitOn_eq_singleton hmem, ← hsub]
    split
    · exact emplacePair_eq _ _
    · rename_i hstop
      rw [hstop] at hfind
      cases hfind
  | case2 start values hlt stop hfind ih =>
    obtain ⟨token, rest, htoken, hdrop, rfl⟩ : ∃ token rest, ';' ∉ token ∧ payload.drop start = token ++ ';' :: rest ∧
        stop = start + token.length := by
      rcases find_cases payload ';' start with ⟨-, hnone⟩ | ⟨token, rest, htoken, hdrop, hsome⟩
      · rw [hnone] at hfind
        cases hfind
      · exact ⟨token, rest, htoken, hdrop, Option.some.inj (hfind.symm.trans hsome)⟩
    have hsub : substr payload start (start + token.length - start) = token := by
      rw [substr, hdrop, Nat.add_sub_cancel_left, List.take_left]
    have hrest : payload.drop (start + token.length + 1) = rest := by
      rw [Nat.add_assoc, ← List.drop_drop, hdrop, ← List.drop_drop, List.drop_left]
      rfl
    rw [hsub, hrest] at ih
    rw [keyValuesLoop, if_pos hlt, hdrop, List.splitOn_append_cons_self_of_not_mem htoken, List.foldl_cons]
    split
    · rename_i hstop
      rw [hstop] at hfind
      cases hfind
    · rename_i stop hstop
      obtain rfl := Option.some.inj (hstop.symm.trans hfind)
      rw [hsub, ih, emplacePair_eq]
  | case3 start values hge =>
    rw [keyValuesLoop, if_neg hge, List.drop_eq_nil_of_le (not_lt.1 hge)]
    rfl

theorem keyValuesLoop_eq (payload : String) : keyValuesLoop payload.toList 0 ∅ = parseKeyValues payload := by
  rw [keyValuesLoop_eq_foldl, parseKeyValues_eq_foldl, List.drop_zero]

theorem lookup_parseKeyValues {payload key value : String} :
    (parseKeyValues payload).lookup key = some value ↔ FirstHeld key value (payload.toList.splitOn ';') := by
  rw [parseKeyValues_eq_foldl, lookup_foldl_emplaceToken, AList.lookup_empty]
  simp

/-! ### Joined fields -/

def render (field : String × String) : List Char := field.1.toList ++ '=' :: field.2.toList

/-- The fields in their order, with at least one semicolon between two of them and any number more of semicolons
before, between and behind them. -/
inductive Joined : List (String × String) → List Char → Prop
  | nil : Joined [] []
  | semicolon {fields : List (String × String)} {text : List Char} (h : Joined fields text) :
      Joined fields (';' :: text)
  | last (field : String × String) : Joined [field] (render field)
  | cons (field : String × String) {fields : List (String × String)} {text : List Char} (h : Joined fields text) :
      Joined (field :: fields) (render field ++ ';' :: text)

/-- Fields that can be told apart in a joined text. -/
structure Separable (fields : List (String × String)) : Prop where
  distinct : (fields.map (·.1)).Nodup
  key_free : ∀ field ∈ fields, '=' ∉ field.1.toList ∧ ';' ∉ field.1.toList
  value_free : ∀ field ∈ fields, ';' ∉ field.2.toList

variable {fields fields' : List (String × String)}

theorem joined_intercalate : ∀ fields : List (String × String), Joined fields ([';'].intercalate (fields.map render))
  | [] => .nil
  | [field] => by simpa [List.intercalate] using Joined.last field
  | field :: next :: fields => by
    have htext : [';'].intercalate ((field :: next :: fields).map render) =
        render field ++ ';' :: [';'].intercalate ((next :: fields).map render) := by
      simp [List.intercalate]
    rw [htext]
    exact .cons field (joined_intercalate (next :: fields))

theorem Separable.perm (h : Separable fields) (hperm : fields'.Perm fields) : Separable fields' :=
  ⟨(hperm.map _).nodup_iff.2 h.distinct, fun field hf => h.key_free field (hperm.mem_iff.1 hf),
    fun field hf => h.value_free field (hperm.mem_iff.1 hf)⟩

theorem semicolon_notMem_render {field : String × String} (hkey : ';' ∉ field.1.toList)
    (hvalue : ';' ∉ field.2.toList) : ';' ∉ render field := by
  rw [render, List.mem_append, List.mem_cons]
  simp [hkey, hvalue]

theorem holds_render {field : String × String} (hkey : '=' ∉ field.1.toList) {key value : String} :
    Holds (render field) key value ↔ field = (key, value) := by
  rw [render, holds_append_iff hkey, String.ofList_toList, String.ofList_toList, Prod.ext_iff]

theorem not_holds_nil {key value : String} : ¬ Holds [] key value := fun h => by simpa using h.token_eq

theorem firstHeld_filter {key value : String} {tokens : List (List Char)} :
    FirstHeld key value (tokens.filter (· ≠ [])) ↔ FirstHeld key value tokens := by
  induction tokens with
  | nil => rfl
  | cons token tokens ih =>
    by_cases htoken : token = []
    · subst htoken
      rw [List.filter_cons_of_neg (by simp), ih, firstHeld_cons_iff]
      simp [not_holds_nil]
    · rw [List.filter_cons_of_pos (by simpa using htoken), firstHeld_cons_iff, firstHeld_cons_iff, ih]

theorem render_ne_nil (field : String × String) : render field ≠ [] := by simp [render]

theorem Joined.tokens {text : List Char} (h : Joined fields text) (hfree : ∀ field ∈ fields, ';' ∉ render field) :
    (text.splitOn ';').filter (· ≠ []) = fields.map render := by
  induction h with
  | nil => rfl
  | @semicolon fields text _ ih =>
    have hnil : ';' ∉ ([] : List Char) := List.not_mem_nil
    have hsplit : (';' :: text).splitOn ';' = [] :: text.splitOn ';' :=
      List.splitOn_append_cons_self_of_not_mem hnil text
    rw [hsplit, List.filter_cons_of_neg (by simp), ih hfree]
  | last field =>
    rw [List.splitOn_eq_singleton (hfree field (by simp)), List.filter_cons_of_pos (by simpa using render_ne_nil field)]
    rfl
  | cons field _ ih =>
    rw [List.splitOn_append_cons_self_of_not_mem (hfree field (by simp)),
      List.filter_cons_of_pos (by simpa using render_ne_nil field), ih fun field hf => hfree field (by simp [hf])]
    rfl

theorem firstHeld_map_render {key value : String} (h : Separable fields) :
    FirstHeld key value (fields.map render) ↔ (key, value) ∈ fields := by
  induction fields with
  | nil => exact iff_of_false (fun h => nomatch h) (by simp)
  | cons field fields ih =>
    have hdistinct := List.nodup_cons.1 h.distinct
    have ih := ih ⟨hdistinct.2, fun f hf => h.key_free f (by simp [hf]), fun f hf => h.value_free f (by simp [hf])⟩
    simp only [List.map_cons, firstHeld_cons_iff, holds_render (h.key_free field (by simp)).1, ih, List.mem_cons]
    refine ⟨fun hor => hor.imp Eq.symm And.right, fun hor => ?_⟩
    rcases hor with rfl | hmem
    · exact .inl rfl
    · refine .inr ⟨fun v hv => hdistinct.1 ?_, hmem⟩
      subst hv
      exact List.mem_map.2 ⟨_, hmem, rfl⟩

theorem lookup_parseKeyValues_joined (h : Separable fields) (hperm : fields'.Perm fields) {payload : String}
    (hjoined : Joined fields' payload.toList) {key value : String} :
    (parseKeyValues payload).lookup key = some value ↔ (key, value) ∈ fields := by
  have h' := h.perm hperm
  have hfree : ∀ field ∈ fields', ';' ∉ render field := fun field hf =>
    semicolon_notMem_render (h'.key_free field hf).2 (h'.value_free field hf)
  rw [lookup_parseKeyValues, ← firstHeld_filter, hjoined.tokens hfree, firstHeld_map_render h', hperm.mem_iff]

end Exchange.Payload

namespace Exchange.Pipeline

open Payload (Separable FirstHeld Holds parseKeyValues keyValuesLoop)

/-- `parse_order` with any function in place of `strtod`. -/
def parseOrderWith (strtod : String → Option ℚ) (userId payload : String) (timestampMs : ℤ) : Option ParsedOrder := do
  let parseDecimal := fun value : String => if value = "" then none else strtod value
  let values := parseKeyValues payload
  let side ← values.lookup "side"
  let type ← values.lookup "type"
  let tif ← values.lookup "tif"
  let orderId ← values.lookup "order_id"
  let symbol ← values.lookup "symbol"
  let sourceIp ← values.lookup "source_ip"
  let quantity ← values.lookup "quantity"
  let matchingSide ← parseMatchingSide side
  let riskSide ← parseRiskSide side
  let matchingType ← parseMatchingType type
  let riskType ← parseRiskType type
  let tif ← parseTif tif
  let quantity ← parseDecimal quantity
  let price ← match values.lookup "price" with
    | some price => parseDecimal price
    | none => some 0
  some { orderId, userId, symbol, sourceIp, matchingSide, riskSide, matchingType, riskType, tif, price, quantity
         timestampMs }

theorem parseOrder_eq : parseOrder = parseOrderWith Payload.strtod := rfl

theorem parseOrderWith_congr {payload payload' : String}
    (h : ∀ key, (parseKeyValues payload).lookup key = (parseKeyValues payload').lookup key) (strtod : String → Option ℚ)
    (userId : String) (timestampMs : ℤ) :
    parseOrderWith strtod userId payload timestampMs = parseOrderWith strtod userId payload' timestampMs := by
  simp only [parseOrderWith, h]

/-- The loop over the indices ends, with the value of the first token of each key and no other keys; so fields that
are joined in any order are read back, and an order is the same for every order of its fields. -/
theorem parse_grammar (strtod : String → Option ℚ) (payload : String) :
    (keyValuesLoop payload.toList 0 ∅ = parseKeyValues payload ∧
      ∀ key, (∀ value, (parseKeyValues payload).lookup key = some value ↔
          FirstHeld key value (payload.toList.splitOn ';')) ∧
        (key ∈ parseKeyValues payload ↔ ∃ token ∈ payload.toList.splitOn ';', ∃ value, Holds token key value)) ∧
      ∀ fields arranged, Separable fields → arranged.Perm fields → Payload.Joined arranged payload.toList →
        (∀ key value, (parseKeyValues payload).lookup key = some value ↔ (key, value) ∈ fields) ∧
          ∀ arranged' payload', arranged'.Perm fields → Payload.Joined arranged' payload'.toList →
            ∀ userId timestampMs,
              parseOrderWith strtod userId payload timestampMs = parseOrderWith strtod userId payload' timestampMs := by
  refine ⟨⟨Payload.keyValuesLoop_eq payload, fun key => ⟨fun value => Payload.lookup_parseKeyValues, ?_⟩⟩, ?_⟩
  · rw [← Payload.exists_firstHeld_iff, ← AList.lookup_isSome, Option.isSome_iff_exists]
    exact exists_congr fun value => Payload.lookup_parseKeyValues
  · intro fields arranged hfields hperm hjoined
    have hread : ∀ key value, (parseKeyValues payload).lookup key = some value ↔ (key, value) ∈ fields := fun _ _ =>
      Payload.lookup_parseKeyValues_joined hfields hperm hjoined
    refine ⟨hread, fun arranged' payload' hperm' hjoined' => parseOrderWith_congr (fun key => ?_) strtod⟩
    refine Option.ext fun value => ?_
    rw [hread, Payload.lookup_parseKeyValues_joined hfields hperm' hjoined']

theorem parse_grammar_reversed : (parseKeyValues "note=a=b;;side=buy;").lookup "note" = some "a=b" ∧
    parseOrderWith Payload.strtod "alice" "note=a=b;;side=buy;" 1 =
      parseOrderWith Payload.strtod "alice" "side=buy;note=a=b" 1 := by
  have hfields : Separable [("side", "buy"), ("note", "a=b")] := ⟨by decide, by decide, by decide⟩
  have hjoined : Payload.Joined [("note", "a=b"), ("side", "buy")] "note=a=b;;side=buy;".toList :=
    .cons ("note", "a=b") (.semicolon (.cons ("side", "buy") .nil))
  have hjoined' : Payload.Joined [("side", "buy"), ("note", "a=b")] "side=buy;note=a=b".toList :=
    Payload.joined_intercalate _
  obtain ⟨hread, horder⟩ := (parse_grammar Payload.strtod "note=a=b;;side=buy;").2 _ _ hfields (.swap _ _ _) hjoined
  exact ⟨(hread "note" "a=b").2 (by decide), horder _ _ (.refl _) hjoined' "alice" 1⟩

end Exchange.Pipeline
