import CharacterRules.Ruleset.Basic

/-!
A small catalog to begin with: the attributes, skills, races and traits of a fantasy setting with
older and newer eras.
-/

namespace CharacterRules

/-- The tables of the sample catalog, with the attribute list of each entry. -/
def sampleTables : List (String × List (String × String)) := [
  ("attributes", [
    ("Agility", ""),
    ("Smarts", ""),
    ("Spirit", ""),
    ("Strength", ""),
    ("Vigor", "")]),
  ("skills", [
    ("Athletics", "Attribute=Agility"),
    ("Common Knowledge", "Attribute=Smarts"),
    ("Faith", "Attribute=Spirit"),
    ("Fighting", "Attribute=Agility"),
    ("Healing", "Attribute=Smarts"),
    ("Intimidation", "Attribute=Spirit"),
    ("Notice", "Attribute=Smarts"),
    ("Persuasion", "Attribute=Spirit"),
    ("Repair", "Attribute=Smarts"),
    ("Riding", "Attribute=Agility"),
    ("Shooting", "Attribute=Agility"),
    ("Spellcasting", "Attribute=Smarts"),
    ("Stealth", "Attribute=Agility"),
    ("Survival", "Attribute=Smarts")]),
  ("features", [
    ("Adaptable", "Section=feature Note=\"+1 Edge Points\""),
    ("Agile", "Section=attribute Note=\"+1 Agility step\""),
    ("Low Light Vision", "Section=feature Note=\"Ignore penalties for dim and dark lighting\""),
    ("Slow", "Section=combat Note=\"-1 Pace\""),
    ("Tough", "Section=attribute Note=\"+1 Vigor step\"")]),
  ("races", [
    ("Dwarf", "Features=\"Low Light Vision\",Slow,Tough"),
    ("Elf", "Features=Agile,\"Low Light Vision\""),
    ("Human", "Features=Adaptable")]),
  ("edges", [
    ("Alertness", "Section=skill Note=\"+2 Notice\""),
    ("Ambidextrous",
      "Require=\"agility >= 8\" Section=combat Note=\"Ignore the off-hand penalty\""),
    ("Arcane Background",
      "Require=\"skills.Spellcasting >= 6\" Section=arcane Note=\"3 Powers/10 Power Points\""),
    ("Block",
      "Require=\"advances >= 4\",\"skills.Fighting >= 8\" Section=combat Note=\"+1 Parry\""),
    ("Brave", "Require=\"spirit >= 6\" Section=combat Note=\"+2 Spirit vs. fear\""),
    ("Brawny", "Require=\"strength >= 6\",\"vigor >= 6\" Section=combat Note=\"+1 Toughness\""),
    ("Danger Sense",
      "Section=skill Note=\"+%\x7bMath.floor(advances / 4) + 1\x7d Notice to sense ambushes\""),
    ("Elven Grace", "Require=\"race == 'Elf'\" Section=attribute Note=\"+1 Agility step\""),
    ("Fleet-Footed", "Require=\"agility >= 6\" Section=combat Note=\"+%V Pace\" NoteValue=2"),
    ("Healer", "Require=\"spirit >= 8\" Section=skill Note=\"+2 Healing\""),
    ("Jack Of All Trades",
      "Require=\"Sum '^skillStep[.]' >= 12\" Section=skill Note=\"Roll d4 for unskilled checks\""),
    ("Nerves Of Steel",
      "Require=\"vigor >= 8\" Section=combat Note=\"Ignore 1 point of wound penalties\""),
    ("Power Points",
      "Require=\"features.Arcane Background\" Section=arcane Note=\"+5 Power Points\""),
    ("Quick", "Require=\"agility >= 8\" Section=combat Note=\"Redraw action cards of 5 or lower\""),
    ("Scholar", "Require=\"smarts >= 8\" Section=skill Note=\"+2 Common Knowledge\"")]),
  ("hindrances", [
    ("Bad Eyes", "Severity=Minor Section=skill Note=\"-1 Notice/-1 Shooting\""),
    ("Clueless", "Severity=Major Section=skill Note=\"-1 Common Knowledge/-1 Notice\""),
    ("Greedy", "Severity=Major Section=feature Note=\"Obsessed with wealth\""),
    ("Heroic", "Severity=Major Section=feature Note=\"Never refuses a plea for help\""),
    ("Loyal", "Severity=Minor Section=feature Note=\"Never leaves a friend behind\""),
    ("Obese",
      "Severity=Minor Imply=\"!features.Fleet-Footed\" " ++
        "Section=combat Note=\"-1 Pace/+1 Toughness\""),
    ("Quirk", "Severity=Minor Section=feature Note=\"Has a harmless habit\""),
    ("Small", "Severity=Major Section=combat Note=\"-1 Toughness\"")]),
  ("powers", [
    ("Blast", "Advances=4"),
    ("Bolt", "Advances=0"),
    ("Boost Trait", "Advances=0"),
    ("Detect Arcana", "Advances=0"),
    ("Fly", "Advances=8"),
    ("Protection", "Advances=0"),
    ("Relief", "Advances=0"),
    ("Stun", "Advances=0")]),
  ("weapons", [
    ("Bow", "Era=Medieval Damage=2d6 MinStr=6"),
    ("Dagger", "Era=Medieval,Modern Damage=Str+d4"),
    ("Laser Pistol", "Era=Future Damage=3d6"),
    ("Long Sword", "Era=Medieval Damage=Str+d8 MinStr=8"),
    ("Pistol", "Era=Modern Damage=2d6"),
    ("Rifle", "Era=Modern Damage=2d8 MinStr=6"),
    ("Staff", "Era=Medieval Damage=Str+d4")]),
  ("armors", [
    ("Chain Mail", "Armor=3 MinStr=8"),
    ("Kevlar Vest", "Armor=2"),
    ("Leather", "Armor=1")]),
  ("eras", [
    ("Future", ""),
    ("Medieval", ""),
    ("Modern", "")]),
  ("concepts", [
    ("Fighter",
      "Attribute=Agility,Strength Skill=Fighting,Athletics,Intimidation Edge=Block,Brawny,Quick"),
    ("Healer", "Attribute=Smarts,Spirit Skill=Healing,Persuasion,Faith Edge=Healer"),
    ("Mage",
      "Attribute=Smarts,Spirit Skill=Spellcasting,Notice " ++
        "Edge=\"Arcane Background\",\"Power Points\" Power=Bolt,Protection"),
    ("Scout",
      "Attribute=Agility,Smarts Skill=Stealth,Notice,Survival,Shooting " ++
        "Edge=Alertness,Fleet-Footed")])]

namespace Catalog

/-- The attribute lists of tables. -/
def sourceOfTables (tables : List (String × List (String × String))) : Source :=
  .ofList (tables.map fun (table, entries) => (table, .ofList entries compare)) compare

def sample : Catalog := ofSource (sourceOfTables sampleTables)

end Catalog
end CharacterRules
