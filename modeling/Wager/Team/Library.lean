import Wager.Text.Basic

/-!
# The curated teams

Clubs of five European leagues, each with its identifier, its canonical name and the names under
which it is typed.  A team that comes earlier owns a name that two teams share.
-/

namespace Wager

structure LibraryTeam where
  id : Text
  name : Text
  aliases : List Text
  deriving DecidableEq, Repr

def LibraryTeam.ofStrings (id name : String) (aliases : List String) : LibraryTeam :=
  ⟨id.toList, name.toList, aliases.map String.toList⟩

def teamLibrary : List LibraryTeam := [
  .ofStrings "arsenal" "阿森纳" ["ars", "afc", "arsenal", "gunners", "阿森纳"],
  .ofStrings "astonvilla" "阿斯顿维拉" ["avl", "villa", "aston villa", "阿斯顿维拉", "维拉"],
  .ofStrings "bournemouth" "伯恩茅斯" ["bou", "bournemouth", "afcb", "伯恩茅斯", "樱桃"],
  .ofStrings "brentford" "布伦特福德" ["bre", "brentford", "布伦特福德"],
  .ofStrings "brighton" "布莱顿" ["bha", "brighton", "brighton & hove albion", "布莱顿"],
  .ofStrings "burnley" "伯恩利" ["bur", "burnley", "伯恩利"],
  .ofStrings "chelsea" "切尔西" ["che", "chelsea", "cfc", "切尔西"],
  .ofStrings "crystalpalace" "水晶宫" ["cry", "crystal palace", "水晶宫"],
  .ofStrings "everton" "埃弗顿" ["eve", "everton", "埃弗顿"],
  .ofStrings "fulham" "富勒姆" ["ful", "fulham", "富勒姆"],
  .ofStrings "ipswich" "伊普斯维奇" ["ips", "ipswich", "ipswich town", "伊普斯维奇"],
  .ofStrings "leicester" "莱斯特城" ["lei", "leicester", "leicester city", "莱斯特城"],
  .ofStrings "leeds" "利兹联" ["lee", "leeds", "leeds united", "利兹联"],
  .ofStrings "liverpool" "利物浦" ["liv", "liverpool", "lfc", "利物浦"],
  .ofStrings "mancity" "曼城" ["mci", "man city", "manchester city", "city", "曼城"],
  .ofStrings "manutd" "曼联" ["mun", "man utd", "manchester united", "utd", "曼联"],
  .ofStrings "newcastle" "纽卡斯尔" ["new", "newcastle", "newcastle united", "纽卡", "纽卡斯尔"],
  .ofStrings "nottingham" "诺丁汉森林" ["nfo", "nott'm forest", "nottingham forest", "诺丁汉森林"],
  .ofStrings "southampton" "南安普顿" ["sou", "southampton", "南安普顿"],
  .ofStrings "sunderland" "桑德兰" ["sun", "sunderland", "桑德兰"],
  .ofStrings "tottenham" "热刺" ["tot", "spurs", "tottenham", "tottenham hotspur", "热刺"],
  .ofStrings "westham" "西汉姆联" ["whu", "west ham", "west ham united", "西汉姆", "西汉姆联"],
  .ofStrings "wolves" "狼队" ["wol", "wolves", "wolverhampton", "wolverhampton wanderers", "狼队"],
  .ofStrings "realmadrid" "皇马" ["rma", "real madrid", "madrid", "皇马"],
  .ofStrings "barcelona" "巴塞罗那" ["bar", "fcb", "barcelona", "巴萨", "巴塞罗那"],
  .ofStrings "atletico" "马竞" ["atm", "atleti", "atletico madrid", "马竞"],
  .ofStrings "athletic" "毕尔巴鄂" ["ath", "athletic club", "athletic bilbao", "毕尔巴鄂"],
  .ofStrings "realsociedad" "皇家社会" ["rso", "real sociedad", "皇家社会"],
  .ofStrings "betis" "贝蒂斯" ["bet", "real betis", "贝蒂斯"],
  .ofStrings "sevilla" "塞维利亚" ["sev", "sevilla", "塞维利亚"],
  .ofStrings "valencia" "瓦伦西亚" ["val", "valencia", "瓦伦西亚"],
  .ofStrings "villarreal" "黄潜" ["vil", "villarreal", "黄潜", "比利亚雷亚尔"],
  .ofStrings "girona" "赫罗纳" ["gir", "girona", "赫罗纳"],
  .ofStrings "inter" "国际米兰" ["int", "inter", "inter milan", "国际米兰", "国米"],
  .ofStrings "milan" "米兰" ["mil", "ac milan", "milan", "米兰", "ac米兰"],
  .ofStrings "juventus" "尤文" ["juv", "juventus", "尤文", "尤文图斯"],
  .ofStrings "napoli" "那不勒斯" ["nap", "napoli", "那不勒斯"],
  .ofStrings "roma" "罗马" ["rom", "roma", "罗马"],
  .ofStrings "lazio" "拉齐奥" ["laz", "lazio", "拉齐奥"],
  .ofStrings "atalanta" "亚特兰大" ["ata", "atalanta", "亚特兰大"],
  .ofStrings "fiorentina" "佛罗伦萨" ["fio", "fiorentina", "佛罗伦萨"],
  .ofStrings "bologna" "博洛尼亚" ["bol", "bologna", "博洛尼亚"],
  .ofStrings "bayern" "拜仁" ["bay", "bayern", "bayern munich", "拜仁"],
  .ofStrings "dortmund" "多特" ["bvb", "dor", "dortmund", "borussia dortmund", "多特"],
  .ofStrings "leverkusen" "勒沃库森" ["lev", "leverkusen", "勒沃库森"],
  .ofStrings "leipzig" "莱比锡" ["rbl", "rbl leipzig", "leipzig", "莱比锡"],
  .ofStrings "stuttgart" "斯图加特" ["stu", "stuttgart", "斯图加特"],
  .ofStrings "frankfurt" "法兰克福" ["sge", "fra", "frankfurt", "法兰克福"],
  .ofStrings "wolfsburg" "沃尔夫斯堡" ["wob", "wolfsburg", "沃尔夫斯堡"],
  .ofStrings "gladbach" "门兴" ["bmg", "m'gladbach", "gladbach", "门兴"],
  .ofStrings "psg" "巴黎圣日耳曼" ["psg", "paris", "paris saint-germain", "巴黎", "巴黎圣日耳曼"],
  .ofStrings "marseille" "马赛" ["om", "marseille", "马赛"],
  .ofStrings "monaco" "摩纳哥" ["asm", "monaco", "摩纳哥"],
  .ofStrings "lille" "里尔" ["losc", "lil", "lille", "里尔"],
  .ofStrings "lyon" "里昂" ["lyo", "lyon", "里昂"],
  .ofStrings "nice" "尼斯" ["nic", "nice", "尼斯"]]

end Wager
