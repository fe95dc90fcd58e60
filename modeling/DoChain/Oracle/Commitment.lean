import DoChain.Oracle.Rates
import DoChain.Sdk.ParseCoin

/- What a prevote commits to (`x/oracle/types/hash.go`).

   The hash of a prevote is that of the salt, the rates and the voter, joined by colons. A
   denomination may have colons, and so may a salt: the end of the salt and the start of the
   rates can be moved against each other. `Splits` says when a vote target allows that: at a
   colon of it starts another coin that a message may have, or it ends. `prevote_binds_iff` says
   that a prevote binds to its rates exactly if no target does. -/

namespace Oracle

open Sdk

/-! ## Fields -/

/-- The first field. -/
theorem splitAt_eq (sep : Char) (l : List Char) :
    ∃ rest, splitAt sep l = l.takeWhile (fun c => c != sep) :: rest := by
  induction l with
  | nil => exact ⟨[], rfl⟩
  | cons c l ih =>
    obtain ⟨rest, hrest⟩ := ih
    by_cases hc : c = sep
    · exact ⟨splitAt sep l, by simp [splitAt, hc]⟩
    · exact ⟨rest, by simp [splitAt, hc, hrest]⟩

theorem splitAt_append (sep : Char) (l l' : List Char) :
    splitAt sep (l ++ sep :: l') = splitAt sep l ++ splitAt sep l' := by
  induction l with
  | nil => simp [splitAt]
  | cons c l ih =>
    by_cases hc : c = sep
    · simp [splitAt, hc, ih]
    · obtain ⟨rest, hrest⟩ := splitAt_eq sep l
      simp [splitAt, hc, ih, hrest]

theorem splitAt_single {sep : Char} {l : List Char} (h : sep ∉ l) : splitAt sep l = [l] := by
  induction l with
  | nil => rfl
  | cons c l ih =>
    rw [List.mem_cons, not_or] at h
    simp [splitAt, Ne.symm h.1, ih h.2]

/-- The part of a list after its last separator. -/
theorem exists_lastField (sep : Char) (l : List Char) :
    ∃ before field, l = before ++ field ∧ sep ∉ field ∧ (before = [] ∨ ∃ l', before = l' ++ [sep]) := by
  induction l using List.reverseRecOn with
  | nil => exact ⟨[], [], rfl, List.not_mem_nil, .inl rfl⟩
  | append_singleton l c ih =>
    by_cases hc : c = sep
    · exact ⟨l ++ [c], [], by simp, List.not_mem_nil, .inr ⟨l, by rw [hc]⟩⟩
    · obtain ⟨before, field, heq, hfield, hbefore⟩ := ih
      refine ⟨before, field ++ [c], by rw [heq, List.append_assoc], ?_, hbefore⟩
      simp [hfield, Ne.symm hc]

/-- The field around a character. -/
theorem exists_field {sep c : Char} (hc : c ≠ sep) (l l' : List Char) :
    ∃ before field, l = before ++ field ∧
      field ++ c :: l'.takeWhile (fun x => x != sep) ∈ splitAt sep (l ++ c :: l') := by
  obtain ⟨before, field, heq, hfield, hbefore⟩ := exists_lastField sep l
  refine ⟨before, field, heq, ?_⟩
  have hfirst : ∃ rest, splitAt sep (field ++ c :: l') =
      (field ++ c :: l'.takeWhile (fun x => x != sep)) :: rest := by
    obtain ⟨rest, hrest⟩ := splitAt_eq sep (field ++ c :: l')
    refine ⟨rest, ?_⟩
    rw [hrest, List.takeWhile_append_of_pos]
    · simp [hc]
    · intro x hx
      simp only [bne_iff_ne, ne_eq]
      intro hsep
      exact hfield (hsep ▸ hx)
  obtain ⟨rest, hrest⟩ := hfirst
  rcases hbefore with rfl | ⟨l'', rfl⟩
  · rw [heq, List.nil_append, hrest]
    exact List.mem_cons_self
  · rw [heq, List.append_assoc, List.append_assoc, List.singleton_append, splitAt_append, hrest]
    exact List.mem_append_right _ List.mem_cons_self

/-! ## Reveals -/

/-- What the oracle rests on of `strings.TrimSpace` and `sdk.ParseDecCoin`. -/
structure Env.ReadsCoins (env : Env) : Prop where
  trim : ∀ s, env.trimSpace s = Sdk.trimSpace s
  /-- a coin is blanks, digits and points, blanks, the denomination and blanks -/
  shape : ∀ {s c}, env.parseDecCoin s = .ok c → ∃ lead amount gap trail,
    s.toList = lead ++ (amount ++ (gap ++ (c.denom.toList ++ trail))) ∧ amount ≠ [] ∧
      (∀ x ∈ amount, x.isDigit = true ∨ x = '.') ∧ ∀ x ∈ lead ++ (gap ++ trail), isSpace x = true
  blanks : ∀ s, env.parseDecCoin (Sdk.trimSpace s) = env.parseDecCoin s
  one : ∀ {d}, validDenom d = true → env.parseDecCoin ("1" ++ d) = .ok ⟨d, .one⟩

/-- The functions of the SDK do. -/
theorem Env.ReadsCoins.of_sdk {env : Env} (htrim : env.trimSpace = Sdk.trimSpace)
    (hparse : env.parseDecCoin = Sdk.parseDecCoin) : env.ReadsCoins := by
  refine ⟨fun s => by rw [htrim], ?_, ?_, ?_⟩
  · rw [hparse]
    exact parseDecCoin_shape
  · rw [hparse]
    exact parseDecCoin_trimSpace
  · rw [hparse]
    exact parseDecCoin_one

section Reveals

variable (env : Env) (k : Store)

/-- A vote that passes its checks, with the rates that it is parsed to. -/
structure Reveals (voter : ValAddress) (msg : MsgAggregateDoRateVote) (tuples : List DoRateTuple) : Prop where
  basic : MsgAggregateDoRateVote.validateBasic env msg = .ok ()
  voter : env.valBech32.accAddressFromBech32 msg.validator = .ok voter
  parsed : parseDoRateTuples env msg.exchangeRates = .ok tuples
  targets : checkVoteTargets k tuples = .ok ()

/-- What `getAggregateVoteHash` hashes. -/
def preimage (msg : MsgAggregateDoRateVote) (voter : ValAddress) : String :=
  msg.salt ++ ":" ++ msg.exchangeRates ++ ":" ++ env.valBech32.string voter

/-- Two votes with one preimage have the same rates. -/
def Binds (voter : ValAddress) : Prop :=
  ∀ msg msg' tuples tuples', Reveals env k voter msg tuples → Reveals env k voter msg' tuples' →
    preimage env msg voter = preimage env msg' voter → tuples = tuples'

/-- A coin that is parsed from a text, of a target and with an amount that a message may have. -/
def Accepts (text : String) (c : DecCoin) : Prop :=
  env.parseDecCoin text = .ok c ∧ WithinBitLen c.amount ∧ IsTarget k c.denom

/-- A target with a colon among its first 62 bytes, after which there is nothing, or a coin of a
target. -/
def Splits : Prop :=
  ∃ a b, IsTarget k (a ++ ":" ++ b) ∧ validDenom (a ++ ":" ++ b) = true ∧ a.utf8ByteSize ≤ 61 ∧
    (b = "" ∨ ∃ c, Accepts env k b c)

variable {env k} {voter : ValAddress} {msg msg' : MsgAggregateDoRateVote} {tuples tuples' : List DoRateTuple}

theorem checkVoteTargets_eq_ok :
    checkVoteTargets k tuples = .ok () ↔ ∀ t ∈ tuples, IsTarget k t.denom := by
  induction tuples with
  | nil => simp [checkVoteTargets]
  | cons t rest ih => simp [checkVoteTargets, Outcome.check_bind_eq_ok, ih, IsTarget, Option.isSome_iff_ne_none]

/-- Every text is parsed to one of the rates. -/
theorem parseTuples_mem {seen texts : List String} (h : parseTuples env seen texts = .ok tuples) {text : String}
    (htext : text ∈ texts) :
    ∃ c, env.parseDecCoin text = .ok c ∧ ⟨c.denom, c.amount⟩ ∈ tuples := by
  induction texts generalizing seen tuples with
  | nil => cases htext
  | cons first rest ih =>
    rw [parseTuples] at h
    cases hfirst : env.parseDecCoin first with
    | error e => simp [hfirst] at h
    | ok c =>
      simp only [hfirst] at h
      split_ifs at h
      cases hrest : parseTuples env (c.denom :: seen) rest with
      | error e => simp [hrest] at h
      | ok tail =>
        simp only [hrest] at h
        cases h
        rcases List.mem_cons.mp htext with rfl | htext
        · exact ⟨c, hfirst, List.mem_cons_self⟩
        · obtain ⟨c', hc', hmem⟩ := ih hrest htext
          exact ⟨c', hc', List.mem_cons_of_mem _ hmem⟩

theorem validateBasic_eq_ok :
    MsgAggregateDoRateVote.validateBasic env msg = .ok () ↔
      (∃ a, env.accBech32.accAddressFromBech32 msg.feeder = .ok a) ∧
      (∃ a, env.valBech32.accAddressFromBech32 msg.validator = .ok a) ∧
      1 ≤ msg.exchangeRates.utf8ByteSize ∧ msg.exchangeRates.utf8ByteSize ≤ 4096 ∧
      (∃ tuples, parseDoRateTuples env msg.exchangeRates = .ok tuples ∧
        ∀ t ∈ tuples, WithinBitLen t.exchangeRate) ∧
      1 ≤ msg.salt.utf8ByteSize ∧ msg.salt.utf8ByteSize ≤ 64 := by
  simp only [MsgAggregateDoRateVote.validateBasic, address, Outcome.bind_eq_ok, Outcome.ofExcept_eq_ok,
    Outcome.failIf_eq_ok]
  refine ⟨?_, ?_⟩
  · intro h
    obtain ⟨a, ha, b, hb, _, hmin, _, hmax, tuples, hparse, _, hfits, hsalt⟩ := h
    refine ⟨⟨a, ha⟩, ⟨b, hb⟩, by omega, by omega, ⟨tuples, hparse, ?_⟩, by omega, by omega⟩
    intro t ht
    by_contra hn
    exact hfits ⟨t, ht, hn⟩
  · intro h
    obtain ⟨⟨a, ha⟩, ⟨b, hb⟩, hmin, hmax, ⟨tuples, hparse, hfits⟩, hsalt, hsalt'⟩ := h
    refine ⟨a, ha, b, hb, (), by omega, (), by omega, tuples, hparse, (), ?_, by omega⟩
    intro hover
    obtain ⟨t, ht, hn⟩ := hover
    exact hn (hfits t ht)

/-- Blanks, digits and points are no colons. -/
theorem not_colon {l : List Char} (h : ∀ x ∈ l, isSpace x = true ∨ x.isDigit = true ∨ x = '.') : ':' ∉ l := by
  intro hmem
  have hcolon := h ':' hmem
  revert hcolon
  decide

/-- The first coin, of a text and of the trimmed text. -/
theorem trim_first (l : List Char) :
    Trim.trim isSpace ((Trim.trim isSpace l).takeWhile (fun x => x != ',')) =
      Trim.trim isSpace (l.takeWhile (fun x => x != ',')) := by
  refine Trim.trim_takeWhile_trim ?_ l
  intro x hx
  rw [bne_iff_ne]
  intro heq
  rw [heq] at hx
  revert hx
  decide

/-- The coins of a vote, the first of them and any other one. -/
theorem Reveals.field (hreads : env.ReadsCoins) (h : Reveals env k voter msg tuples)
    (hne : Trim.trim isSpace msg.exchangeRates.toList ≠ []) {field : List Char}
    (hfield : field ∈ splitAt ',' (Trim.trim isSpace msg.exchangeRates.toList)) :
    ∃ c, Accepts env k (String.ofList field) c := by
  obtain ⟨_, _, _, _, ⟨tuples', hparsed', hbits⟩, _⟩ := validateBasic_eq_ok.mp h.basic
  obtain rfl : tuples' = tuples := Except.ok.inj (hparsed'.symm.trans h.parsed)
  have hparsed := h.parsed
  have htrim : (env.trimSpace msg.exchangeRates).toList = Trim.trim isSpace msg.exchangeRates.toList := by
    rw [hreads.trim, Sdk.trimSpace, String.toList_ofList]
  have hnonempty : env.trimSpace msg.exchangeRates ≠ "" := by
    intro hempty
    rw [hempty] at htrim
    exact hne htrim.symm
  rw [parseDoRateTuples, if_neg hnonempty, htrim] at hparsed
  obtain ⟨c, hc, hmem⟩ := parseTuples_mem hparsed (List.mem_map_of_mem hfield)
  exact ⟨c, hc, hbits _ hmem, checkVoteTargets_eq_ok.mp h.targets _ hmem⟩

/-- A colon in the rates of a vote is in the denomination of one of its coins: before it there
is an amount at least, and after it the rest of the denomination and blanks. -/
theorem Reveals.colon (hreads : env.ReadsCoins) (h : Reveals env k voter msg tuples) {before after : List Char}
    (hrates : msg.exchangeRates.toList = before ++ ':' :: after) :
    ∃ d a b front blanks, IsTarget k d ∧ validDenom d = true ∧ d.toList = a ++ ':' :: b ∧
      before = front ++ a ∧ front ≠ [] ∧ after.takeWhile (fun x => x != ',') = b ++ blanks ∧
      ∀ x ∈ blanks, isSpace x = true := by
  -- it is not in the blanks around the rates
  obtain ⟨lead, trail, heq, hlead, htrail⟩ := Trim.exists_trim isSpace msg.exchangeRates.toList
  rw [List.append_assoc] at heq
  obtain ⟨left, right, hbefore, hmid, hafter⟩ := Trim.split_middle
    (not_colon fun x hx => .inl (hlead x hx)) (not_colon fun x hx => .inl (htrail x hx)) (heq.symm.trans hrates)
  -- it is in one of the coins
  have hsep : ':' ≠ ',' := by decide
  obtain ⟨others, field, hleft, hfield⟩ := exists_field hsep left right
  rw [← hmid] at hfield
  obtain ⟨c, hc, _, htarget⟩ := h.field hreads (by rw [hmid]; simp) hfield
  -- it is neither in the amount nor in blanks
  obtain ⟨lead', amount, gap, trail', hcoin, hamount, hdigits, hblanks⟩ := hreads.shape hc
  rw [String.toList_ofList, ← List.append_assoc, ← List.append_assoc] at hcoin
  have hfront : ∀ x ∈ lead' ++ amount ++ gap, isSpace x = true ∨ x.isDigit = true ∨ x = '.' := by
    intro x hx
    simp only [List.mem_append] at hx hblanks
    rcases hx with (hx | hx) | hx
    · exact .inl (hblanks x (.inl hx))
    · exact .inr (hdigits x hx)
    · exact .inl (hblanks x (.inr (.inl hx)))
  have htrail' : ∀ x ∈ trail', isSpace x = true :=
    fun x hx => hblanks x (List.mem_append_right _ (List.mem_append_right _ hx))
  obtain ⟨a, b, hfield', hdenom, hrest⟩ := Trim.split_middle (not_colon hfront)
    (not_colon fun x hx => .inl (htrail' x hx)) hcoin.symm
  -- the coin ends at a comma, or with the rates and the blanks after them
  have hcut : ∃ blanks, after.takeWhile (fun x => x != ',') = b ++ blanks ∧ ∀ x ∈ blanks, isSpace x = true := by
    rw [hafter, List.takeWhile_append]
    split_ifs with hall
    · have hself := (List.takeWhile_prefix (fun x => x != ',')).eq_of_length hall
      refine ⟨trail' ++ trail.takeWhile (fun x => x != ','), by rw [← hself, hrest, List.append_assoc], ?_⟩
      intro x hx
      rcases List.mem_append.mp hx with hx | hx
      · exact htrail' x hx
      · exact htrail x ((List.takeWhile_sublist _).subset hx)
    · exact ⟨trail', hrest, htrail'⟩
  obtain ⟨blanks, hcut, hblank⟩ := hcut
  refine ⟨c.denom, a, b, lead ++ others ++ (lead' ++ amount ++ gap), blanks, htarget,
    (env.parseDecCoin_valid hc).1, hdenom, ?_, by simp [hamount], hcut, hblank⟩
  rw [hbefore, hleft, hfield']
  simp

/-- Rates that start with these characters and blanks: there are none, or the characters are the
first coin. -/
theorem Reveals.first (hreads : env.ReadsCoins) (h : Reveals env k voter msg tuples) {b blanks : List Char}
    (hb : ∀ x ∈ b, isSpace x = false) (hblanks : ∀ x ∈ blanks, isSpace x = true)
    (hrates : msg.exchangeRates.toList.takeWhile (fun x => x != ',') = b ++ blanks) :
    b = [] ∨ ∃ c, Accepts env k (String.ofList b) c := by
  have hfirst : Trim.trim isSpace
      ((Trim.trim isSpace msg.exchangeRates.toList).takeWhile (fun x => x != ',')) = b := by
    rw [trim_first, hrates, Trim.trim_append_right hb hblanks]
  by_cases hempty : Trim.trim isSpace msg.exchangeRates.toList = []
  · rw [hempty] at hfirst
    exact .inl hfirst.symm
  · obtain ⟨rest, hsplit⟩ := splitAt_eq ',' (Trim.trim isSpace msg.exchangeRates.toList)
    obtain ⟨c, hc, hbits, htarget⟩ := h.field hreads hempty (hsplit ▸ List.mem_cons_self)
    rw [← hreads.blanks, Sdk.trimSpace, String.toList_ofList, hfirst] at hc
    exact .inr ⟨c, hc, hbits, htarget⟩

/-- The rates of one vote are the rest of those of another after a colon, and the salt has what
is before. Then the colon is one of a target. -/
theorem Reveals.splits (hreads : env.ReadsCoins) (h : Reveals env k voter msg tuples)
    (h' : Reveals env k voter msg' tuples') {shift : List Char}
    (hsalt : msg'.salt.toList = msg.salt.toList ++ ':' :: shift)
    (hrates : msg.exchangeRates.toList = shift ++ ':' :: msg'.exchangeRates.toList) : Splits env k := by
  obtain ⟨d, a, b, front, blanks, htarget, hvalid, hd, hshift, hfront, hrest, hblanks⟩ := h.colon hreads hrates
  have hname : d = String.ofList a ++ ":" ++ String.ofList b := by
    rw [← String.toList_inj, hd]
    simp
  refine ⟨String.ofList a, String.ofList b, hname ▸ htarget, hname ▸ hvalid, ?_, ?_⟩
  · -- the salt has the other salt, the colon, a digit of the amount and this part
    obtain ⟨_, _, _, _, _, hmin, _⟩ := validateBasic_eq_ok.mp h.basic
    obtain ⟨_, _, _, _, _, _, hmax⟩ := validateBasic_eq_ok.mp h'.basic
    have hparts : msg'.salt = msg.salt ++ ":" ++ String.ofList front ++ String.ofList a := by
      rw [← String.toList_inj, hsalt, hshift]
      simp
    have hdigit : (String.ofList front).utf8ByteSize ≠ 0 := by
      rw [ne_eq, String.utf8ByteSize_eq_zero_iff, String.ofList_eq_empty_iff]
      exact hfront
    have hcolon : (":" : String).utf8ByteSize = 1 := by decide
    rw [hparts] at hmax
    simp only [String.utf8ByteSize_append] at hmax
    omega
  · obtain ⟨_, _, _, _, _, hchars⟩ := validDenom_chars hvalid
    have hb : ∀ x ∈ b, isSpace x = false :=
      fun x hx => denomChar_not_space (hchars x (by rw [hd]; simp [hx]))
    exact (h'.first hreads hb hblanks hrest).imp_left fun hnil => by rw [hnil]

theorem parseDoRateTuples_single (hreads : env.ReadsCoins) {rates text : String} {c : DecCoin}
    (htrim : Trim.trim isSpace rates.toList = text.toList) (hne : text ≠ "") (hcomma : ',' ∉ text.toList)
    (hc : env.parseDecCoin text = .ok c) : parseDoRateTuples env rates = .ok [⟨c.denom, c.amount⟩] := by
  have htext : env.trimSpace rates = text := by
    rw [hreads.trim, Sdk.trimSpace, htrim, String.ofList_toList]
  rw [parseDoRateTuples, htext, if_neg hne, splitAt_single hcomma]
  simp [parseTuples, hc]

theorem utf8ByteSize_le (s : String) : s.utf8ByteSize ≤ 4 * s.toList.length := by
  have hlist : ∀ l : List Char, (String.ofList l).utf8ByteSize ≤ 4 * l.length := by
    intro l
    induction l with
    | nil => simp
    | cons c l ih =>
      have hchar := c.utf8Size_le_four
      simp only [String.ofList_cons, String.utf8ByteSize_append, String.utf8ByteSize_singleton, List.length_cons]
      omega
  have h := hlist s.toList
  rwa [String.ofList_toList] at h

theorem Reveals.of_parsed {feeder validator salt rates : String} {f : AccAddress}
    (hfeeder : env.accBech32.accAddressFromBech32 feeder = .ok f)
    (hvalidator : env.valBech32.accAddressFromBech32 validator = .ok voter)
    (hsalt : 1 ≤ salt.utf8ByteSize ∧ salt.utf8ByteSize ≤ 64)
    (hrates : 1 ≤ rates.utf8ByteSize ∧ rates.utf8ByteSize ≤ 4096)
    (hparse : parseDoRateTuples env rates = .ok tuples)
    (htuples : ∀ t ∈ tuples, WithinBitLen t.exchangeRate ∧ IsTarget k t.denom) :
    Reveals env k voter ⟨salt, rates, feeder, validator⟩ tuples where
  basic := validateBasic_eq_ok.mpr ⟨⟨f, hfeeder⟩, ⟨voter, hvalidator⟩, hrates.1, hrates.2,
    ⟨tuples, hparse, fun t ht => (htuples t ht).1⟩, hsalt⟩
  voter := hvalidator
  parsed := hparse
  targets := checkVoteTargets_eq_ok.mpr fun t ht => (htuples t ht).2

theorem blank_isSpace : ∀ x ∈ (" " : String).toList, isSpace x = true := by
  intro x hx
  have hblank : x = ' ' := by simpa using hx
  rw [hblank]
  rfl

theorem comma_notMem {l : List Char} (h : ∀ x ∈ l, denomChar x = true) : ',' ∉ l := by
  intro hmem
  have hcomma := h ',' hmem
  revert hcomma
  decide

section Votes

variable {feeder validator salt d b : String} {f : AccAddress}

/-- A vote of one of a target, with a blank after it. -/
theorem reveals_one (hreads : env.ReadsCoins) (hfeeder : env.accBech32.accAddressFromBech32 feeder = .ok f)
    (hvalidator : env.valBech32.accAddressFromBech32 validator = .ok voter)
    (hsalt : 1 ≤ salt.utf8ByteSize ∧ salt.utf8ByteSize ≤ 64) (hvalid : validDenom d = true)
    (htarget : IsTarget k d) :
    Reveals env k voter ⟨salt, "1" ++ d ++ " ", feeder, validator⟩ [⟨d, .one⟩] := by
  obtain ⟨_, rest, hd, _, hlen, hchars⟩ := validDenom_chars hvalid
  have htext : ("1" ++ d).toList = '1' :: d.toList := by simp
  have hchars' : ∀ x ∈ ("1" ++ d).toList, denomChar x = true := by
    rw [htext]
    exact List.forall_mem_cons.mpr ⟨by decide, hchars⟩
  have hsize : 1 ≤ ("1" ++ d ++ " ").utf8ByteSize ∧ ("1" ++ d ++ " ").utf8ByteSize ≤ 4096 := by
    have hbytes := utf8ByteSize_le d
    rw [hd, List.length_cons] at hbytes
    have hone : ("1" : String).utf8ByteSize = 1 := by decide
    have hspace : (" " : String).utf8ByteSize = 1 := by decide
    simp only [String.utf8ByteSize_append]
    omega
  have hparse : parseDoRateTuples env ("1" ++ d ++ " ") = .ok [⟨d, .one⟩] := by
    refine parseDoRateTuples_single hreads ?_ ?_ (comma_notMem hchars') (hreads.one hvalid)
    · rw [String.toList_append]
      exact Trim.trim_append_right (fun x hx => denomChar_not_space (hchars' x hx)) blank_isSpace
    · intro hempty
      rw [hempty] at htext
      cases htext
  refine .of_parsed hfeeder hvalidator hsalt hsize hparse ?_
  intro t ht
  rw [List.mem_singleton.mp ht]
  exact ⟨show WithinBitLen .one by decide +kernel, htarget⟩

/-- A vote of what is after a colon, with a blank after it: no rate, or one of a shorter name. -/
theorem reveals_rest (hreads : env.ReadsCoins) (hfeeder : env.accBech32.accAddressFromBech32 feeder = .ok f)
    (hvalidator : env.valBech32.accAddressFromBech32 validator = .ok voter)
    (hsalt : 1 ≤ salt.utf8ByteSize ∧ salt.utf8ByteSize ≤ 64) (hchars : ∀ x ∈ b.toList, denomChar x = true)
    (hlen : b.toList.length ≤ 128) (hb : b = "" ∨ ∃ c, Accepts env k b c) :
    ∃ tuples, Reveals env k voter ⟨salt, b ++ " ", feeder, validator⟩ tuples ∧
      ∀ t ∈ tuples, t.denom.toList.length ≤ b.toList.length := by
  have hsize : 1 ≤ (b ++ " ").utf8ByteSize ∧ (b ++ " ").utf8ByteSize ≤ 4096 := by
    have hbytes := utf8ByteSize_le b
    have hspace : (" " : String).utf8ByteSize = 1 := by decide
    simp only [String.utf8ByteSize_append]
    omega
  have htrim : Trim.trim isSpace (b ++ " ").toList = b.toList := by
    rw [String.toList_append]
    exact Trim.trim_append_right (fun x hx => denomChar_not_space (hchars x hx)) blank_isSpace
  by_cases hempty : b = ""
  · have hparse : parseDoRateTuples env (b ++ " ") = .ok [] := by
      rw [parseDoRateTuples, if_pos]
      rw [hreads.trim, Sdk.trimSpace, htrim, hempty]
      rfl
    exact ⟨[], .of_parsed hfeeder hvalidator hsalt hsize hparse (by simp), by simp⟩
  · obtain ⟨c, hc, hbits, htarget⟩ := hb.resolve_left hempty
    have hparse := parseDoRateTuples_single hreads htrim hempty (comma_notMem hchars) hc
    refine ⟨[⟨c.denom, c.amount⟩], .of_parsed hfeeder hvalidator hsalt hsize hparse ?_, ?_⟩
    · intro t ht
      rw [List.mem_singleton.mp ht]
      exact ⟨hbits, htarget⟩
    · intro t ht
      obtain ⟨_, _, _, _, hshape, _⟩ := hreads.shape hc
      rw [List.mem_singleton.mp ht, hshape]
      simp only [List.length_append]
      omega

/-- Where a target splits, two votes have one preimage: the whole target, and what is after its
colon with the rest of it in the salt. -/
theorem Splits.not_binds (hreads : env.ReadsCoins) (hfeeder : env.accBech32.accAddressFromBech32 feeder = .ok f)
    (hvalidator : env.valBech32.accAddressFromBech32 validator = .ok voter) (h : Splits env k) :
    ¬ Binds env k voter := by
  intro hbinds
  obtain ⟨a, b, htarget, hvalid, ha, hb⟩ := h
  obtain ⟨_, rest, hd, _, hlen, hchars⟩ := validDenom_chars hvalid
  have hlonger : b.toList.length < (a ++ ":" ++ b).toList.length := by
    simp only [String.toList_append, List.length_append]
    have hcolon : (":" : String).toList.length = 1 := by decide
    omega
  have hbound : (a ++ ":" ++ b).toList.length ≤ 128 := by
    rw [hd, List.length_cons]
    omega
  have hsalt : 1 ≤ ("x:1" ++ a).utf8ByteSize ∧ ("x:1" ++ a).utf8ByteSize ≤ 64 := by
    have hstart : ("x:1" : String).utf8ByteSize = 3 := by decide
    simp only [String.utf8ByteSize_append]
    omega
  have hwhole : Reveals env k voter ⟨"x", "1" ++ (a ++ ":" ++ b) ++ " ", feeder, validator⟩
      [⟨a ++ ":" ++ b, .one⟩] :=
    reveals_one hreads hfeeder hvalidator (by decide) hvalid htarget
  obtain ⟨tuples, hrest, hshort⟩ := reveals_rest hreads hfeeder hvalidator hsalt
    (fun x hx => hchars x (by simp [hx])) (by omega) hb
  have hpreimage : preimage env ⟨"x", "1" ++ (a ++ ":" ++ b) ++ " ", feeder, validator⟩ voter =
      preimage env ⟨"x:1" ++ a, b ++ " ", feeder, validator⟩ voter := by
    rw [← String.toList_inj]
    simp [preimage]
  have hsame := hbinds _ _ _ _ hwhole hrest hpreimage
  have hnot := hshort ⟨a ++ ":" ++ b, .one⟩ (hsame ▸ List.mem_singleton_self _)
  exact absurd hnot (by show ¬ (a ++ ":" ++ b).toList.length ≤ _; omega)

end Votes

end Reveals

/-- A prevote binds the rates of its vote exactly if no vote target splits. -/
theorem prevote_binds_iff {env : Env} (hreads : env.ReadsCoins) (k : Store) {feeder validator : String}
    {a : AccAddress} {voter : ValAddress} (hfeeder : env.accBech32.accAddressFromBech32 feeder = .ok a)
    (hvalidator : env.valBech32.accAddressFromBech32 validator = .ok voter) :
    Binds env k voter ↔ ¬ Splits env k := by
  refine ⟨fun hbinds hsplits => hsplits.not_binds hreads hfeeder hvalidator hbinds, ?_⟩
  intro hno msg msg' tuples tuples' h h' hpre
  have hjoined : msg.salt.toList ++ ':' :: msg.exchangeRates.toList =
      msg'.salt.toList ++ ':' :: msg'.exchangeRates.toList := by
    have htexts : msg.salt.toList ++ ':' :: msg.exchangeRates.toList ++
        ':' :: (env.valBech32.string voter).toList =
        msg'.salt.toList ++ ':' :: msg'.exchangeRates.toList ++ ':' :: (env.valBech32.string voter).toList := by
      rw [preimage, preimage, ← String.toList_inj] at hpre
      simpa using hpre
    exact List.append_cancel_right htexts
  rcases List.append_eq_append_iff.mp hjoined with ⟨shift, hsalt, hrates⟩ | ⟨shift, hsalt, hrates⟩
  · cases shift with
    | nil =>
      have hsame : msg.exchangeRates = msg'.exchangeRates := by
        rw [← String.toList_inj]
        simpa using hrates
      exact Except.ok.inj (h.parsed.symm.trans (hsame ▸ h'.parsed))
    | cons x shift =>
      obtain ⟨hx, hrates⟩ := List.cons.inj hrates
      exact absurd (h.splits hreads h' (hx ▸ hsalt) hrates) hno
  · cases shift with
    | nil =>
      have hsame : msg.exchangeRates = msg'.exchangeRates := by
        rw [← String.toList_inj]
        simpa using hrates.symm
      exact Except.ok.inj (h.parsed.symm.trans (hsame ▸ h'.parsed))
    | cons x shift =>
      obtain ⟨hx, hrates⟩ := List.cons.inj hrates
      exact absurd (h'.splits hreads h (hx ▸ hsalt) hrates) hno

namespace Sample

open Sdk.Sample (alice aliceText aliceOperator)

/-- The application with the coins of the SDK. -/
def reader : Env :=
  { app with
    trimSpace := Sdk.trimSpace
    parseDecCoin := Sdk.parseDecCoin
    parseDecCoin_valid := fun h => ⟨(Sdk.parseDecCoin_valid h).1, (Sdk.parseDecCoin_valid h).2.1⟩ }

theorem reader_reads : reader.ReadsCoins := .of_sdk (by simp only [reader]) (by simp only [reader])

theorem alice_feeds : reader.accBech32.accAddressFromBech32 aliceText = .ok alice := by decide +kernel

theorem alice_operates : reader.valBech32.accAddressFromBech32 aliceOperator = .ok alice := by decide +kernel

/-- Targets without colons. -/
theorem ukrw_uusd_bind : Binds reader (voted [] []) alice := by
  refine (prevote_binds_iff reader_reads (voted [] []) alice_feeds alice_operates).mpr ?_
  intro hsplits
  obtain ⟨a, b, htarget, _⟩ := hsplits
  have hcolon : ':' ∈ (a ++ ":" ++ b).toList := by simp
  generalize a ++ ":" ++ b = d at htarget hcolon
  have hd : d = "ukrw" ∨ d = "uusd" := by
    by_contra hno
    rw [not_or] at hno
    simp [IsTarget, voted, SortedMap.get_set, hno] at htarget
  rcases hd with rfl | rfl
  · revert hcolon
    decide
  · revert hcolon
    decide

/-- The targets `a:2bcd` and `bcd`. -/
def colons : Store :=
  { voted [] [] with
    params := { params with whitelist := [⟨"a:2bcd", .zero⟩, ⟨"bcd", .zero⟩] }
    tobinTaxes := (SortedMap.empty.set "a:2bcd" .zero).set "bcd" .zero }

/-- One preimage, of a vote of one `a:2bcd` and of a vote of two `bcd`. -/
theorem colon_moved :
    colons.params.validate = .ok () ∧
    Reveals reader colons alice ⟨"x", "1a:2bcd", aliceText, aliceOperator⟩ [⟨"a:2bcd", .one⟩] ∧
    Reveals reader colons alice ⟨"x:1a", "2bcd", aliceText, aliceOperator⟩ [⟨"bcd", .ofInt 2⟩] ∧
    preimage reader ⟨"x", "1a:2bcd", aliceText, aliceOperator⟩ alice =
      preimage reader ⟨"x:1a", "2bcd", aliceText, aliceOperator⟩ alice := by
  have hchecks : colons.params.validate.value = some () ∧
      parseDoRateTuples reader "1a:2bcd" = .ok [⟨"a:2bcd", .one⟩] ∧
      parseDoRateTuples reader "2bcd" = .ok [⟨"bcd", .ofInt 2⟩] ∧
      (∀ t ∈ [DoRateTuple.mk "a:2bcd" .one, ⟨"bcd", .ofInt 2⟩],
        WithinBitLen t.exchangeRate ∧ (colons.tobinTaxes.get t.denom).isSome = true) ∧
      "x" ++ ":" ++ "1a:2bcd" = "x:1a" ++ ":" ++ "2bcd" := by
    decide +kernel
  obtain ⟨hvalid, hwhole, hrest, htuples, hjoined⟩ := hchecks
  refine ⟨Outcome.value_eq_some.mp hvalid, ?_, ?_, congrArg (fun s => s ++ ":" ++ _) hjoined⟩
  · refine .of_parsed alice_feeds alice_operates (by decide) (by decide) hwhole fun t ht => htuples t ?_
    exact List.mem_cons.mpr (.inl (List.mem_singleton.mp ht))
  · exact .of_parsed alice_feeds alice_operates (by decide) (by decide) hrest
      fun t ht => htuples t (List.mem_cons_of_mem _ ht)

end Sample

end Oracle
