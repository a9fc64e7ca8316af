import TokiPona.Dictionary

namespace TokiPona.Dictionary

/-- The class is the sum of 1 particle, 2 content, 4 modal, 8 preposition, 16 interjection, 32 numeral. -/
def standardEntries : List Entry :=
  [⟨"a", 17⟩, ⟨"akesi", 2⟩, ⟨"ala", 2⟩, ⟨"alasa", 6⟩, ⟨"ale", 34⟩, ⟨"ali", 34⟩, ⟨"anpa", 2⟩, ⟨"ante", 2⟩,
   ⟨"anu", 1⟩, ⟨"awen", 6⟩, ⟨"e", 1⟩, ⟨"en", 1⟩, ⟨"esun", 2⟩, ⟨"ijo", 2⟩, ⟨"ike", 18⟩, ⟨"ilo", 2⟩,
   ⟨"insa", 2⟩, ⟨"jaki", 2⟩, ⟨"jan", 2⟩, ⟨"jelo", 2⟩, ⟨"jo", 2⟩, ⟨"kala", 2⟩, ⟨"kalama", 2⟩, ⟨"kama", 6⟩,
   ⟨"kasi", 2⟩, ⟨"ken", 6⟩, ⟨"kepeken", 10⟩, ⟨"kili", 2⟩, ⟨"kin", 3⟩, ⟨"kiwen", 2⟩, ⟨"ko", 2⟩, ⟨"kon", 2⟩,
   ⟨"kule", 2⟩, ⟨"kulupu", 2⟩, ⟨"kute", 2⟩, ⟨"la", 1⟩, ⟨"lape", 2⟩, ⟨"laso", 2⟩, ⟨"lawa", 2⟩, ⟨"len", 2⟩,
   ⟨"lete", 2⟩, ⟨"li", 1⟩, ⟨"lili", 2⟩, ⟨"linja", 2⟩, ⟨"lipu", 2⟩, ⟨"loje", 2⟩, ⟨"lon", 10⟩, ⟨"luka", 34⟩,
   ⟨"lukin", 6⟩, ⟨"lupa", 2⟩, ⟨"ma", 2⟩, ⟨"mama", 2⟩, ⟨"mani", 2⟩, ⟨"meli", 2⟩, ⟨"mi", 2⟩, ⟨"mije", 2⟩,
   ⟨"moku", 2⟩, ⟨"moli", 2⟩, ⟨"monsi", 2⟩, ⟨"mu", 18⟩, ⟨"mun", 2⟩, ⟨"musi", 2⟩, ⟨"mute", 34⟩, ⟨"nanpa", 2⟩,
   ⟨"nasa", 2⟩, ⟨"nasin", 2⟩, ⟨"nena", 2⟩, ⟨"ni", 2⟩, ⟨"nimi", 2⟩, ⟨"noka", 2⟩, ⟨"o", 17⟩, ⟨"olin", 2⟩,
   ⟨"ona", 2⟩, ⟨"open", 6⟩, ⟨"pakala", 18⟩, ⟨"pali", 2⟩, ⟨"palisa", 2⟩, ⟨"pan", 2⟩, ⟨"pana", 2⟩, ⟨"pi", 1⟩,
   ⟨"pilin", 2⟩, ⟨"pimeja", 2⟩, ⟨"pini", 6⟩, ⟨"pipi", 2⟩, ⟨"poka", 2⟩, ⟨"poki", 2⟩, ⟨"pona", 18⟩, ⟨"pu", 2⟩,
   ⟨"sama", 10⟩, ⟨"seli", 2⟩, ⟨"selo", 2⟩, ⟨"seme", 2⟩, ⟨"sewi", 2⟩, ⟨"sijelo", 2⟩, ⟨"sike", 2⟩, ⟨"sin", 2⟩,
   ⟨"sina", 2⟩, ⟨"sinpin", 2⟩, ⟨"sitelen", 2⟩, ⟨"sona", 6⟩, ⟨"soweli", 2⟩, ⟨"suli", 2⟩, ⟨"suno", 2⟩,
   ⟨"supa", 2⟩, ⟨"suwi", 2⟩, ⟨"tan", 10⟩, ⟨"taso", 3⟩, ⟨"tawa", 10⟩, ⟨"telo", 2⟩, ⟨"tenpo", 2⟩,
   ⟨"toki", 18⟩, ⟨"tomo", 2⟩, ⟨"tu", 34⟩, ⟨"unpa", 2⟩, ⟨"uta", 2⟩, ⟨"utala", 2⟩, ⟨"walo", 2⟩, ⟨"wan", 34⟩,
   ⟨"waso", 2⟩, ⟨"wawa", 2⟩, ⟨"weka", 2⟩, ⟨"wile", 6⟩]

def standardCompounds : List Compound :=
  [⟨"tomo", ["tawa"]⟩, ⟨"tomo", ["tawa", "kon"]⟩, ⟨"tomo", ["tawa", "telo"]⟩, ⟨"jan", ["lawa"]⟩,
   ⟨"telo", ["nasa"]⟩, ⟨"ma", ["tomo"]⟩, ⟨"ilo", ["sona"]⟩, ⟨"tenpo", ["suno"]⟩]

def standard : Dictionary := ⟨1, standardEntries, standardCompounds⟩

end TokiPona.Dictionary
